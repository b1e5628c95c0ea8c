import TorrentEngine.PeerRefinement

/-! `peer_nonblock_tcp` as the holder of a descriptor. A family of such objects opens, adopts, moves,
closes and destroys, and the kernel keeps which descriptors are open. -/

open Transition

namespace TorrentEngine

/-- The objects that are alive, and the kernel. -/
structure Sockets (ι : Type) where
  object : ι → Option PeerTcp
  kernel : Kernel
  /-- The calls of `close` on a descriptor that was not open. -/
  badCloses : List Fd

inductive SocketEvent (ι : Type) where
  | openSocket (o : ι) (domain : SaFamily) (call : SocketReturn)
  /-- A descriptor is opened by another call, such as `accept`. -/
  | accept (fd : Fd)
  | adoptSocket (o : ι) (fd : Option Fd)
  | moveConstruct (dst src : ι)
  | moveAssign (dst src : ι)
  | closeSocket (o : ι)
  | destroy (o : ι)

namespace Sockets

variable {ι : Type} [DecidableEq ι] (s : Sockets ι)

/-- `get_socket`, of an object that is alive. -/
def socket (o : ι) : Option Fd := (s.object o).bind PeerTcp.socket

def IsOpen (fd : Fd) : Prop := (s.kernel fd).isSome = true

def setObject (o : ι) (tcp : Option PeerTcp) : Sockets ι :=
  { s with object := Function.update s.object o tcp }

/-- `close`. -/
def closeFd : Option Fd → Sockets ι
  | none => s
  | some fd =>
      { s with
        kernel := s.kernel.closed (some fd)
        badCloses := if (s.kernel fd).isSome then s.badCloses else fd :: s.badCloses }

def closeSocket (o : ι) : Sockets ι :=
  (s.closeFd (s.socket o)).setObject o (some ⟨none, noError⟩)

/-- `open_socket`, of an object with this state. -/
def openSocket (o : ι) (tcp : PeerTcp) (domain : SaFamily) (call : SocketReturn) : Sockets ι × Bool :=
  let fail (errno : Int) := (s.setObject o (some { tcp with perrno := errno }), false)
  if tcp.socket ≠ none then fail einval
  else if domain ≠ .afInet ∧ domain ≠ .afInet6 then fail eafnosupport
  else
    match call with
    | .failed errno => fail errno
    | .opened fd =>
        ({ s with kernel := s.kernel.opened fd }.setObject o (some { tcp with socket := some fd }), true)

def adoptSocket (o : ι) (tcp : PeerTcp) (sock : Option Fd) : Sockets ι × Bool :=
  if tcp.socket ≠ none ∨ sock = none then (s, false)
  else (s.setObject o (some { tcp with socket := sock }), true)

/-- The move constructor. What the other object records is copied, and then the other object is closed. -/
def moveConstruct (dst src : ι) : Sockets ι := (s.setObject dst (s.object src)).closeSocket src

/-- The move assignment. -/
def moveAssign (dst src : ι) : Sockets ι :=
  if dst = src then s else (s.closeSocket dst).moveConstruct dst src

/-- The destructor. -/
def destroy (o : ι) : Sockets ι := (s.closeSocket o).setObject o none

/-- An operation on objects that are alive. The kernel opens descriptors that are not open. -/
def step : SocketEvent ι → Option (Sockets ι)
  | .openSocket o domain call =>
      match s.object o with
      | none => none
      | some tcp =>
          if ∀ fd ∈ call.fd?, s.kernel fd = none then some (s.openSocket o tcp domain call).1 else none
  | .accept fd => if s.kernel fd = none then some { s with kernel := s.kernel.opened fd } else none
  | .adoptSocket o sock =>
      match s.object o with
      | none => none
      | some tcp => some (s.adoptSocket o tcp sock).1
  | .moveConstruct dst src =>
      if (s.object src).isSome ∧ (s.object dst).isNone then some (s.moveConstruct dst src) else none
  | .moveAssign dst src =>
      if (s.object src).isSome ∧ (s.object dst).isSome then some (s.moveAssign dst src) else none
  | .closeSocket o => if (s.object o).isSome then some (s.closeSocket o) else none
  | .destroy o => if (s.object o).isSome then some (s.destroy o) else none

/-- No object has a descriptor. -/
def Idle : Prop := (∀ o, s.socket o = none) ∧ s.badCloses = []

end Sockets

def socketMachine (ι : Type) [DecidableEq ι] : Machine (Sockets ι) (SocketEvent ι) where
  Init := Sockets.Idle
  Step s e s' := s.step e = some s'

namespace SocketEvent

variable {ι : Type}

/-- The operation closes, destroys or overwrites the object that holds the descriptor. -/
def Releases (s : Sockets ι) (fd : Fd) : SocketEvent ι → Prop
  | .closeSocket o => s.socket o = some fd
  | .destroy o => s.socket o = some fd
  | .moveAssign dst src => dst ≠ src ∧ s.socket dst = some fd
  | .openSocket .. | .accept _ | .adoptSocket .. | .moveConstruct .. => False

/-- The operation moves from one object to another. -/
def Moves (dst src : ι) : SocketEvent ι → Prop
  | .moveConstruct dst' src' => dst' = dst ∧ src' = src
  | .moveAssign dst' src' => dst' ≠ src' ∧ dst' = dst ∧ src' = src
  | .openSocket .. | .accept _ | .adoptSocket .. | .closeSocket _ | .destroy _ => False

end SocketEvent

namespace Sockets

variable {ι : Type} {s s' : Sockets ι} {e : SocketEvent ι}

/-- Each descriptor that an object holds is open and held by no other object, and `close` was only called
on open descriptors. -/
structure Owned (s : Sockets ι) : Prop where
  isOpen : ∀ o fd, s.socket o = some fd → s.IsOpen fd
  unique : ∀ o o' fd, s.socket o = some fd → s.socket o' = some fd → o = o'
  closes : s.badCloses = []

/-- What an operation may do: a descriptor that is open stays open unless its holder is closed, destroyed or
overwritten; a move takes the descriptor from the source to the destination, still open; and no descriptor
is closed that is not open. -/
structure Lawful (s : Sockets ι) (e : SocketEvent ι) (s' : Sockets ι) : Prop where
  stays : ∀ fd, s.IsOpen fd → s'.IsOpen fd ∨ e.Releases s fd
  moved : ∀ dst src, e.Moves dst src → s'.socket src = none ∧ s'.socket dst = s.socket src ∧
    ∀ fd, s.socket src = some fd → s'.IsOpen fd
  closes : s'.badCloses = s.badCloses

/-- The operations that keep ownership: no object that has a descriptor is moved from, and what is adopted is
open and has no holder. -/
def Keeps (s : Sockets ι) : SocketEvent ι → Prop
  | .adoptSocket o sock => s.socket o = none →
      ∀ fd, sock = some fd → s.IsOpen fd ∧ ∀ o', s.socket o' ≠ some fd
  | .moveConstruct _ src => s.socket src = none
  | .moveAssign dst src => dst ≠ src → s.socket src = none
  | .openSocket .. | .accept _ | .closeSocket _ | .destroy _ => True

/-! ### What the operations do to the descriptors -/

theorem socket_closeFd (s : Sockets ι) (sock : Option Fd) (o : ι) :
    (s.closeFd sock).socket o = s.socket o := by
  cases sock <;> rfl

theorem isOpen_closeFd (s : Sockets ι) (sock : Option Fd) (fd : Fd) :
    (s.closeFd sock).IsOpen fd ↔ s.IsOpen fd ∧ sock ≠ some fd := by
  cases sock with
  | none => simp [closeFd]
  | some fd' =>
      simp only [IsOpen, closeFd, Kernel.closed, Function.update_apply]
      by_cases heq : fd = fd'
      · simp [heq]
      · simp [heq, Ne.symm heq]

theorem badCloses_closeFd {sock : Option Fd} (h : ∀ fd, sock = some fd → s.IsOpen fd) :
    (s.closeFd sock).badCloses = s.badCloses := by
  cases sock with
  | none => rfl
  | some fd =>
      have hopen : (s.kernel fd).isSome = true := h fd rfl
      rw [closeFd, if_pos hopen]

/-- A state in which every object has the descriptor it had, and no descriptor was closed. -/
theorem Owned.congr (h : s.Owned) (hsocket : ∀ o, s'.socket o = s.socket o)
    (hopen : ∀ fd, s.IsOpen fd → s'.IsOpen fd) (hcloses : s'.badCloses = s.badCloses) : s'.Owned where
  isOpen o fd hsock := by
    rw [hsocket] at hsock
    exact hopen fd (h.isOpen o fd hsock)
  unique o o' fd hsock hsock' := by
    rw [hsocket] at hsock hsock'
    exact h.unique o o' fd hsock hsock'
  closes := hcloses.trans h.closes

/-- An operation that moves nothing, closes nothing and takes no descriptor. -/
theorem Owned.lawful_of_congr (h : s.Owned) (hsocket : ∀ o, s'.socket o = s.socket o)
    (hopen : ∀ fd, s.IsOpen fd → s'.IsOpen fd) (hcloses : s'.badCloses = s.badCloses)
    (hmoves : ∀ dst src, ¬ e.Moves dst src) : Lawful s e s' ∧ s'.Owned :=
  ⟨⟨fun fd hfd => Or.inl (hopen fd hfd), fun dst src hmove => absurd hmove (hmoves dst src), hcloses⟩,
    h.congr hsocket hopen hcloses⟩

theorem Owned.accept_lawful (h : s.Owned) (fd : Fd) :
    Lawful s (.accept fd) { s with kernel := s.kernel.opened fd } ∧
      ({ s with kernel := s.kernel.opened fd } : Sockets ι).Owned := by
  apply h.lawful_of_congr
  · exact fun _ => rfl
  · intro fd' hfd'
    simp only [IsOpen, Kernel.opened, Function.update_apply]
    split
    · rfl
    · exact hfd'
  · rfl
  · exact fun _ _ hmove => hmove

theorem Idle.owned (h : s.Idle) : s.Owned where
  isOpen o fd hsock := by
    rw [h.1 o] at hsock
    cases hsock
  unique o o' fd hsock _ := by
    rw [h.1 o] at hsock
    cases hsock
  closes := h.2

variable [DecidableEq ι]

theorem socket_setObject (s : Sockets ι) (o o' : ι) (tcp : Option PeerTcp) :
    (s.setObject o tcp).socket o' = if o' = o then tcp.bind PeerTcp.socket else s.socket o' := by
  simp only [socket, setObject, Function.update_apply]
  split <;> rfl

theorem socket_closeSocket (s : Sockets ι) (o o' : ι) :
    (s.closeSocket o).socket o' = if o' = o then none else s.socket o' := by
  rw [closeSocket, socket_setObject, socket_closeFd]
  rfl

theorem isOpen_closeSocket (s : Sockets ι) (o : ι) (fd : Fd) :
    (s.closeSocket o).IsOpen fd ↔ s.IsOpen fd ∧ s.socket o ≠ some fd :=
  isOpen_closeFd s (s.socket o) fd

theorem Owned.badCloses_closeSocket (h : s.Owned) (o : ι) :
    (s.closeSocket o).badCloses = s.badCloses :=
  badCloses_closeFd (h.isOpen o)

theorem socket_destroy (s : Sockets ι) (o o' : ι) :
    (s.destroy o).socket o' = (s.closeSocket o).socket o' := by
  rw [destroy, socket_setObject, socket_closeSocket]
  split <;> rfl

/-- A closed object leaves the others as they were. -/
theorem Owned.closeSocket (h : s.Owned) (o : ι) : (s.closeSocket o).Owned := by
  have hheld : ∀ o' fd, (s.closeSocket o).socket o' = some fd → o' ≠ o ∧ s.socket o' = some fd := by
    intro o' fd hsock
    rw [socket_closeSocket] at hsock
    split at hsock
    · cases hsock
    · rename_i hne
      exact ⟨hne, hsock⟩
  refine ⟨?_, ?_, (h.badCloses_closeSocket o).trans h.closes⟩
  · intro o' fd hsock
    obtain ⟨hne, hsock⟩ := hheld o' fd hsock
    refine (isOpen_closeSocket s o fd).mpr ⟨h.isOpen o' fd hsock, fun hother => ?_⟩
    exact hne (h.unique o' o fd hsock hother)
  · intro o₁ o₂ fd h₁ h₂
    exact h.unique o₁ o₂ fd (hheld o₁ fd h₁).2 (hheld o₂ fd h₂).2

/-- An object without a descriptor takes one that is open and has no holder. -/
theorem Owned.take (h : s.Owned) {o : ι} {fd : Fd} (hfree : ∀ o', s.socket o' ≠ some fd)
    (hsocket : ∀ o', s'.socket o' = if o' = o then some fd else s.socket o')
    (hopen : ∀ fd', s.IsOpen fd' → s'.IsOpen fd') (hfd : s'.IsOpen fd)
    (hcloses : s'.badCloses = s.badCloses) : s'.Owned := by
  have hheld : ∀ o' fd', s'.socket o' = some fd' →
      (o' = o ∧ fd' = fd) ∨ s.socket o' = some fd' := by
    intro o' fd' hsock
    rw [hsocket] at hsock
    split at hsock
    · rename_i heq
      exact Or.inl ⟨heq, (Option.some.inj hsock).symm⟩
    · exact Or.inr hsock
  refine ⟨?_, ?_, hcloses.trans h.closes⟩
  · intro o' fd' hsock
    rcases hheld o' fd' hsock with ⟨-, rfl⟩ | hold
    · exact hfd
    · exact hopen fd' (h.isOpen o' fd' hold)
  · intro o₁ o₂ fd' h₁ h₂
    rcases hheld o₁ fd' h₁ with ⟨rfl, rfl⟩ | hold₁
    · rcases hheld o₂ fd' h₂ with ⟨rfl, -⟩ | hold₂
      · rfl
      · exact absurd hold₂ (hfree o₂)
    · rcases hheld o₂ fd' h₂ with ⟨rfl, rfl⟩ | hold₂
      · exact absurd hold₁ (hfree o₁)
      · exact h.unique o₁ o₂ fd' hold₁ hold₂

/-! ### What an operation keeps -/

theorem Owned.openSocket_lawful (h : s.Owned) {o : ι} {tcp : PeerTcp} (htcp : s.object o = some tcp)
    (domain : SaFamily) {call : SocketReturn} (hcall : ∀ fd ∈ call.fd?, s.kernel fd = none) :
    Lawful s (.openSocket o domain call) (s.openSocket o tcp domain call).1 ∧
      (s.openSocket o tcp domain call).1.Owned := by
  have hsock : s.socket o = tcp.socket := by
    rw [socket, htcp]
    rfl
  have hfail : ∀ errno, Lawful s (.openSocket o domain call)
      (s.setObject o (some { tcp with perrno := errno })) ∧
        (s.setObject o (some { tcp with perrno := errno })).Owned := by
    intro errno
    apply h.lawful_of_congr
    · intro o'
      rw [socket_setObject]
      split
      · rename_i heq
        rw [heq, hsock]
        rfl
      · rfl
    · exact fun _ hfd => hfd
    · rfl
    · exact fun _ _ hmove => hmove
  unfold Sockets.openSocket
  dsimp only
  split
  · exact hfail einval
  · rename_i hnone
    have hnone : tcp.socket = none := not_not.mp hnone
    split
    · exact hfail eafnosupport
    · cases call with
      | failed errno => exact hfail errno
      | opened fd =>
          have hclosed : s.kernel fd = none := hcall fd rfl
          have hopens : ∀ fd', s.IsOpen fd' → ({ s with kernel := s.kernel.opened fd }.setObject o
              (some { tcp with socket := some fd })).IsOpen fd' := by
            intro fd' hfd'
            simp only [IsOpen, setObject, Kernel.opened, Function.update_apply]
            split
            · rfl
            · exact hfd'
          refine ⟨⟨fun fd' hfd' => Or.inl (hopens fd' hfd'), fun _ _ hmove => absurd hmove id, rfl⟩, ?_⟩
          apply h.take _ (fun o' => socket_setObject _ o o' _) hopens _ rfl
          · intro o' hheld
            have hopen : (s.kernel fd).isSome = true := h.isOpen o' fd hheld
            rw [hclosed] at hopen
            cases hopen
          · simp [IsOpen, setObject, Kernel.opened]

theorem Owned.adoptSocket_lawful_iff (h : s.Owned) {o : ι} {tcp : PeerTcp}
    (htcp : s.object o = some tcp) (sock : Option Fd) :
    (Lawful s (.adoptSocket o sock) (s.adoptSocket o tcp sock).1 ∧
      (s.adoptSocket o tcp sock).1.Owned) ↔ s.Keeps (.adoptSocket o sock) := by
  have hsock : s.socket o = tcp.socket := by
    rw [socket, htcp]
    rfl
  rw [Keeps, adoptSocket, hsock]
  by_cases hrefused : tcp.socket ≠ none ∨ sock = none
  · rw [if_pos hrefused]
    constructor
    · rintro - hnone fd rfl
      rcases hrefused with hne | hnil
      · exact absurd hnone hne
      · cases hnil
    · intro _
      exact h.lawful_of_congr (fun _ => rfl) (fun _ hfd => hfd) rfl fun _ _ hmove => hmove
  · have hnone : tcp.socket = none := not_not.mp (not_or.mp hrefused).1
    obtain ⟨fd, rfl⟩ := Option.ne_none_iff_exists'.mp (not_or.mp hrefused).2
    rw [if_neg hrefused]
    have hsocket := fun o' => socket_setObject s o o' (some { tcp with socket := some fd })
    constructor
    · rintro ⟨-, howned⟩ - fd' hfd'
      cases hfd'
      have hheld : (s.setObject o (some { tcp with socket := some fd })).socket o = some fd := by
        rw [hsocket, if_pos rfl]
        rfl
      refine ⟨howned.isOpen o fd hheld, fun o' hother => ?_⟩
      have hne : o' ≠ o := by
        rintro rfl
        rw [hsock, hnone] at hother
        cases hother
      refine hne (howned.unique o' o fd ?_ hheld)
      rw [hsocket, if_neg hne]
      exact hother
    · intro hkeeps
      obtain ⟨hopen, hfree⟩ := hkeeps hnone fd rfl
      refine ⟨⟨fun _ hfd => Or.inl hfd, fun _ _ hmove => absurd hmove id, rfl⟩, ?_⟩
      exact h.take hfree hsocket (fun _ hfd => hfd) hopen rfl

/-- The descriptors after a move: the source has none, the destination what the source had. -/
theorem socket_moveConstruct (s : Sockets ι) (dst src o : ι) :
    (s.moveConstruct dst src).socket o =
      if o = src then none else if o = dst then s.socket src else s.socket o := by
  rw [moveConstruct, socket_closeSocket, socket_setObject]
  rfl

theorem isOpen_moveConstruct (s : Sockets ι) {dst src : ι} (hne : dst ≠ src) (fd : Fd) :
    (s.moveConstruct dst src).IsOpen fd ↔ s.IsOpen fd ∧ s.socket src ≠ some fd := by
  rw [moveConstruct, isOpen_closeSocket, socket_setObject, if_neg hne.symm]
  rfl

/-- A move from an object without a descriptor to another one without. -/
theorem Owned.moveConstruct (h : s.Owned) {dst src : ι} (hne : dst ≠ src)
    (hdst : s.socket dst = none) (hsrc : s.socket src = none) :
    (∀ fd, s.IsOpen fd → (s.moveConstruct dst src).IsOpen fd) ∧
      (s.moveConstruct dst src).badCloses = s.badCloses ∧ (s.moveConstruct dst src).Owned := by
  have hopen : ∀ fd, s.IsOpen fd → (s.moveConstruct dst src).IsOpen fd := by
    intro fd hfd
    apply (isOpen_moveConstruct s hne fd).mpr
    rw [hsrc]
    exact ⟨hfd, (Option.some_ne_none fd).symm⟩
  have hcloses : (s.moveConstruct dst src).badCloses = s.badCloses := by
    rw [Sockets.moveConstruct, Sockets.closeSocket, socket_setObject, if_neg hne.symm]
    change ((s.setObject dst (s.object src)).closeFd (s.socket src)).badCloses = s.badCloses
    rw [hsrc]
    rfl
  refine ⟨hopen, hcloses, h.congr (fun o => ?_) hopen hcloses⟩
  rw [socket_moveConstruct]
  split
  · rename_i heq
    rw [heq, hsrc]
  · split
    · rename_i heq
      rw [heq, hsrc, hdst]
    · rfl

/-- **A move closes the descriptor that it moves**, so that it keeps ownership only when there is none. -/
theorem socket_none_of_moveConstruct {dst src : ι} (hne : dst ≠ src)
    (howned : (s.moveConstruct dst src).Owned) : s.socket src = none := by
  by_contra hsome
  obtain ⟨fd, hfd⟩ := Option.ne_none_iff_exists'.mp hsome
  have hheld : (s.moveConstruct dst src).socket dst = some fd := by
    rw [socket_moveConstruct, if_neg hne, if_pos rfl, hfd]
  have hopen := (isOpen_moveConstruct s hne fd).mp (howned.isOpen dst fd hheld)
  exact hopen.2 hfd

theorem Owned.moveConstruct_lawful_iff (h : s.Owned) {dst src : ι} (hne : dst ≠ src)
    (hdst : s.socket dst = none) :
    (Lawful s (.moveConstruct dst src) (s.moveConstruct dst src) ∧ (s.moveConstruct dst src).Owned) ↔
      s.Keeps (.moveConstruct dst src) := by
  rw [Keeps]
  constructor
  · intro hkept
    exact socket_none_of_moveConstruct hne hkept.2
  · intro hsrc
    obtain ⟨hopen, hcloses, howned⟩ := h.moveConstruct hne hdst hsrc
    refine ⟨⟨fun fd hfd => Or.inl (hopen fd hfd), ?_, hcloses⟩, howned⟩
    rintro dst' src' ⟨rfl, rfl⟩
    rw [socket_moveConstruct, if_pos rfl, socket_moveConstruct, if_neg hne, if_pos rfl]
    refine ⟨rfl, rfl, fun fd hfd => ?_⟩
    rw [hsrc] at hfd
    cases hfd

theorem Owned.moveAssign_lawful_iff (h : s.Owned) (dst src : ι) :
    (Lawful s (.moveAssign dst src) (s.moveAssign dst src) ∧ (s.moveAssign dst src).Owned) ↔
      s.Keeps (.moveAssign dst src) := by
  rw [Keeps, moveAssign]
  by_cases heq : dst = src
  · rw [if_pos heq]
    refine ⟨fun _ hne => absurd heq hne, fun _ => ?_⟩
    exact h.lawful_of_congr (fun _ => rfl) (fun _ hfd => hfd) rfl fun _ _ hmove => absurd heq hmove.1
  · have hdst : (s.closeSocket dst).socket dst = none := by
      rw [socket_closeSocket, if_pos rfl]
    have hsrc : (s.closeSocket dst).socket src = s.socket src := by
      rw [socket_closeSocket, if_neg (Ne.symm heq)]
    rw [if_neg heq]
    constructor
    · intro hkept _
      rw [← hsrc]
      exact socket_none_of_moveConstruct heq hkept.2
    · intro hkeeps
      have hnone := hkeeps heq
      obtain ⟨hopen, hcloses, howned⟩ := (h.closeSocket dst).moveConstruct heq hdst (hsrc.trans hnone)
      refine ⟨⟨fun fd hfd => ?_, ?_, hcloses.trans (h.badCloses_closeSocket dst)⟩, howned⟩
      · by_cases hheld : s.socket dst = some fd
        · exact Or.inr ⟨heq, hheld⟩
        · exact Or.inl (hopen fd ((isOpen_closeSocket s dst fd).mpr ⟨hfd, hheld⟩))
      · rintro dst' src' ⟨-, rfl, rfl⟩
        rw [socket_moveConstruct, if_pos rfl, socket_moveConstruct, if_neg heq, if_pos rfl, hsrc]
        refine ⟨rfl, rfl, fun fd hfd => ?_⟩
        rw [hnone] at hfd
        cases hfd

/-- An operation that only closes an object. -/
theorem Owned.closed_lawful (h : s.Owned) {o : ι} (hsocket : ∀ o', s'.socket o' = (s.closeSocket o).socket o')
    (hkernel : s'.kernel = (s.closeSocket o).kernel)
    (hcloses : s'.badCloses = (s.closeSocket o).badCloses)
    (hreleases : ∀ fd, s.socket o = some fd → e.Releases s fd)
    (hmoves : ∀ dst src, ¬ e.Moves dst src) : Lawful s e s' ∧ s'.Owned := by
  have hopen : ∀ fd, (s.closeSocket o).IsOpen fd → s'.IsOpen fd := by
    intro fd hfd
    rw [IsOpen, hkernel]
    exact hfd
  refine ⟨⟨fun fd hfd => ?_, fun dst src hmove => absurd hmove (hmoves dst src),
    hcloses.trans (h.badCloses_closeSocket o)⟩, (h.closeSocket o).congr hsocket hopen hcloses⟩
  by_cases hheld : s.socket o = some fd
  · exact Or.inr (hreleases fd hheld)
  · exact Or.inl (hopen fd ((isOpen_closeSocket s o fd).mpr ⟨hfd, hheld⟩))

/-- What one operation keeps, and when. -/
theorem Owned.step_lawful_iff (h : s.Owned) (hstep : s.step e = some s') :
    (Lawful s e s' ∧ s'.Owned) ↔ s.Keeps e := by
  cases e with
  | openSocket o domain call =>
      simp only [step] at hstep
      split at hstep
      · cases hstep
      · rename_i tcp htcp
        split at hstep
        · rename_i hcall
          cases hstep
          exact ⟨fun _ => trivial, fun _ => h.openSocket_lawful htcp domain hcall⟩
        · cases hstep
  | accept fd =>
      simp only [step] at hstep
      split at hstep
      · cases hstep
        exact ⟨fun _ => trivial, fun _ => h.accept_lawful fd⟩
      · cases hstep
  | adoptSocket o sock =>
      simp only [step] at hstep
      split at hstep
      · cases hstep
      · rename_i tcp htcp
        cases hstep
        exact h.adoptSocket_lawful_iff htcp sock
  | moveConstruct dst src =>
      simp only [step] at hstep
      split at hstep
      · rename_i halive
        have hnone : s.object dst = none := Option.isNone_iff_eq_none.mp halive.2
        have hdst : s.socket dst = none := by
          rw [socket, hnone]
          rfl
        have hne : dst ≠ src := by
          rintro rfl
          rw [hnone] at halive
          exact Bool.false_ne_true halive.1
        cases hstep
        exact h.moveConstruct_lawful_iff hne hdst
      · cases hstep
  | moveAssign dst src =>
      simp only [step] at hstep
      split at hstep
      · cases hstep
        exact h.moveAssign_lawful_iff dst src
      · cases hstep
  | closeSocket o =>
      simp only [step] at hstep
      split at hstep
      · cases hstep
        exact ⟨fun _ => trivial, fun _ =>
          h.closed_lawful (fun _ => rfl) rfl rfl (fun _ hfd => hfd) fun _ _ hmove => hmove⟩
      · cases hstep
  | destroy o =>
      simp only [step] at hstep
      split at hstep
      · cases hstep
        exact ⟨fun _ => trivial, fun _ =>
          h.closed_lawful (socket_destroy s o) rfl rfl (fun _ hfd => hfd) fun _ _ hmove => hmove⟩
      · cases hstep

/-- **When descriptors have one owner each.** As long as no object that holds a descriptor is moved from, and
what is adopted is open and has no holder, every descriptor that an object holds is open and its own, no
descriptor is closed twice, and each operation does what it may; and the next operation does so only if it
is of this kind too. -/
theorem owned_of_keeps (h : (socketMachine ι).ReachableBy Keeps s) :
    s.Owned ∧ ∀ e s', s.step e = some s' → ((Lawful s e s' ∧ s'.Owned) ↔ s.Keeps e) := by
  have howned : s.Owned := h.invariant Owned (fun _ => Idle.owned)
    fun _ _ _ _ hs hkeeps hstep => ((hs.step_lawful_iff hstep).mpr hkeeps).2
  exact ⟨howned, fun e s' hstep => howned.step_lawful_iff hstep⟩

/-! Two objects over a kernel without open descriptors; the first opens one. -/

def idleSockets : Sockets (Fin 2) := ⟨fun o => if o = 0 then some ⟨none, noError⟩ else none, fun _ => none, []⟩

theorem idleSockets_idle : idleSockets.Idle := by
  refine ⟨fun o => ?_, rfl⟩
  simp only [socket, idleSockets]
  split <;> rfl

def openedSockets : Sockets (Fin 2) :=
  (idleSockets.openSocket 0 ⟨none, noError⟩ .afInet (.opened 5)).1

theorem openedSockets_step : idleSockets.step (.openSocket 0 .afInet (.opened 5)) = some openedSockets :=
  rfl

theorem openedSockets_reachableBy : (socketMachine (Fin 2)).ReachableBy Keeps openedSockets := by
  have hkeeps : idleSockets.Keeps (.openSocket 0 .afInet (.opened 5)) := trivial
  exact .step (.init idleSockets_idle) hkeeps openedSockets_step

theorem owned_of_keeps_opened :
    openedSockets.Owned ∧ (openedSockets.closeSocket 0).Owned ∧
      ¬ (Lawful openedSockets (.moveConstruct 1 0) (openedSockets.moveConstruct 1 0) ∧
        (openedSockets.moveConstruct 1 0).Owned) := by
  obtain ⟨howned, hnext⟩ := owned_of_keeps openedSockets_reachableBy
  refine ⟨howned, ((hnext (.closeSocket 0) _ rfl).mpr trivial).2, fun hlawful => ?_⟩
  have hnone : openedSockets.socket 0 = none := (hnext (.moveConstruct 1 0) _ rfl).mp hlawful
  cases hnone

/-- **A move closes the descriptor that it hands over**: the destination records a descriptor that is no
longer open, and closing it is a second close. -/
theorem moveConstruct_closes :
    (socketMachine (Fin 2)).Reachable openedSockets ∧
      openedSockets.step (.moveConstruct 1 0) = some (openedSockets.moveConstruct 1 0) ∧
      (openedSockets.moveConstruct 1 0).socket 1 = some 5 ∧
      ¬ (openedSockets.moveConstruct 1 0).IsOpen 5 ∧
      ((openedSockets.moveConstruct 1 0).closeSocket 1).badCloses = [5] ∧
      ¬ Lawful openedSockets (.moveConstruct 1 0) (openedSockets.moveConstruct 1 0) := by
  have hclosed : ¬ (openedSockets.moveConstruct 1 0).IsOpen 5 := by
    rw [isOpen_moveConstruct _ (by decide)]
    exact fun hopen => hopen.2 rfl
  refine ⟨openedSockets_reachableBy.reachable, rfl, rfl, hclosed, rfl, fun hlawful => ?_⟩
  exact hclosed ((hlawful.moved 1 0 ⟨rfl, rfl⟩).2.2 5 rfl)

end Sockets

/-! ### The sockets of the connection pool -/

namespace World

/-- The transports of the slots, which are never moved. -/
def sockets (w : World) : Sockets ConnectionSlot := ⟨fun i => some (w.peer i).tcp, w.kernel, []⟩

theorem object_sockets_modifyPeer (w : World) (i : ConnectionSlot) (tcp : PeerTcp) :
    (w.modifyPeer i fun peer => { peer with tcp }).sockets.object =
      (w.sockets.setObject i (some tcp)).object := by
  funext j
  simp only [sockets, Sockets.setObject, Function.update_apply]
  split
  · rename_i heq
    rw [heq, peer_modifyPeer]
  · rename_i hne
    rw [modifyPeer, setPeer, peer, SlotPool.setObject]
    simp [peer, hne]

/-- `close_socket` of a slot. -/
theorem sockets_closeSocket (w : World) (i : ConnectionSlot) :
    (w.closeSocket i).sockets.object = (w.sockets.closeSocket i).object ∧
      (w.closeSocket i).sockets.kernel = (w.sockets.closeSocket i).kernel := by
  have hsocket : w.sockets.socket i = (w.peer i).tcp.socket := rfl
  constructor
  · rw [closeSocket, object_sockets_modifyPeer, Sockets.closeSocket, hsocket]
    cases (w.peer i).tcp.socket <;> rfl
  · rw [Sockets.closeSocket, hsocket]
    cases hsock : (w.peer i).tcp.socket with
    | none => simp [closeSocket, hsock, sockets, closeFd, modifyPeer, setPeer, Sockets.setObject,
        Sockets.closeFd, Kernel.closed]
    | some fd => simp [closeSocket, hsock, sockets, closeFd, modifyPeer, setPeer, Sockets.setObject,
        Sockets.closeFd]

/-- `open_socket` of a slot. -/
theorem sockets_openSocket (w : World) (i : ConnectionSlot) (domain : SaFamily) (call : SocketReturn) :
    (w.openSocket i domain call).1.sockets.object =
        (w.sockets.openSocket i (w.peer i).tcp domain call).1.object ∧
      (w.openSocket i domain call).1.sockets.kernel =
        (w.sockets.openSocket i (w.peer i).tcp domain call).1.kernel ∧
      (w.openSocket i domain call).2 = (w.sockets.openSocket i (w.peer i).tcp domain call).2 := by
  unfold openSocket Sockets.openSocket
  dsimp only
  split
  · exact ⟨object_sockets_modifyPeer w i _, rfl, rfl⟩
  · split
    · exact ⟨object_sockets_modifyPeer w i _, rfl, rfl⟩
    · cases call with
      | failed errno => exact ⟨object_sockets_modifyPeer w i _, rfl, rfl⟩
      | opened fd => exact ⟨object_sockets_modifyPeer (w.openFd fd) i _, rfl, rfl⟩

end World
end TorrentEngine
