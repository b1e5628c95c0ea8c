import TorrentEngine.Handshake
import TorrentEngine.Sha1

/-! The info hash from the file to the wire: the bytes of the source that are hashed, the standard digest of
them, and the field of the handshake that carries it. -/

open SecureHash

namespace TorrentEngine

open Bencode Handshake

namespace TorrentFile

theorem infoHashField_computeHandshake (infoHash : Vector Byte 20) :
    infoHashField (computeHandshake infoHash) = infoHash.toList := by
  have hbefore : ([19] ++ protocolString ++ reservedBytes).length = 28 := rfl
  rw [infoHashField, computeHandshake, List.append_assoc _ infoHash.toList, ← hbefore, List.drop_left]
  exact List.take_left' infoHash.length_toList

/-- A value of an accepted source stands in it as the slice at its position. -/
theorem construct_encode {getSha1 : List Byte → Digest} {source : List Byte} {torrent : TorrentFile}
    (h : construct getSha1 source = .ok torrent) :
    ∃ before encode after infoValue, source = before ++ (encode ++ after) ∧
      find "info" torrent.transcibe = some infoValue ∧ Derives encode infoValue.erase ∧
      infoValue.positionInSource = ⟨before.length, encode.length⟩ ∧ torrent.infoHashByte = getSha1 encode := by
  obtain ⟨transcibe, p, infoValue, hinput, hinfo, htranscibe, hhash⟩ := construct_spec h
  have hwithin : Data.Within infoValue (.dictionary transcibe p) := .child (find_mem hinfo) (.self infoValue)
  obtain ⟨before, encode, after, rfl, hencode, -⟩ := (input_eq_some.mp hinput).decode_alone hwithin
  rw [hencode.positionInSource, SourceStats.slice_append] at hhash
  exact ⟨before, encode, after, infoValue, rfl, htranscibe ▸ hinfo, hencode.derives,
    hencode.positionInSource, hhash⟩

/-- **The handshake carries the standard digest of the `info` value as it stands in the file**, whatever else
the file holds and whatever order the keys of the value are in. -/
theorem handshake_infoHash (mBlock : Vector Byte 64) {source : List Byte} {torrent : TorrentFile}
    (hlength : source.length < 2 ^ 29) (h : construct (Hasher.getSha1 mBlock) source = .ok torrent) :
    ∃ before encode after infoValue, source = before ++ (encode ++ after) ∧
      find "info" torrent.transcibe = some infoValue ∧ Derives encode infoValue.erase ∧
      infoValue.positionInSource = ⟨before.length, encode.length⟩ ∧
      infoHashField (computeHandshake torrent.infoHashByte) = sha1 encode := by
  obtain ⟨before, encode, after, infoValue, rfl, hinfo, hderives, hposition, hhash⟩ := construct_encode h
  refine ⟨before, encode, after, infoValue, rfl, hinfo, hderives, hposition, ?_⟩
  have hencode : encode.length < 2 ^ 29 := by
    rw [List.length_append, List.length_append] at hlength
    omega
  rw [infoHashField_computeHandshake, hhash]
  exact SHA1.getSha1_standard mBlock hencode

/-- A torrent of one file of one byte, with a copy of its `info` value in another order under a key of its
own. -/
def copiedInfo : List Byte :=
  ("d4:copyd4:name1:a6:lengthi1e12:piece lengthi1e6:pieces20:aaaaaaaaaaaaaaaaaaaae" ++
    "4:infod6:lengthi1e4:name1:a12:piece lengthi1e6:pieces20:aaaaaaaaaaaaaaaaaaaaee").toList.map ascii

theorem construct_copiedInfo :
    (construct (Hasher.getSha1 (Vector.replicate 64 0xAA)) copiedInfo).toOption.bind (fun torrent =>
      (find "info" torrent.transcibe).map Data.positionInSource) = some ⟨84, 71⟩ := by
  decide +kernel

theorem length_copiedInfo : copiedInfo.length = 156 := by decide +kernel

/-- The copy at place 7 derives the same value. -/
theorem handshake_infoHash_copiedInfo : ∃ torrent,
    construct (Hasher.getSha1 (Vector.replicate 64 0xAA)) copiedInfo = .ok torrent ∧
      (find "info" torrent.transcibe).map Data.positionInSource = some ⟨84, 71⟩ ∧
      ∃ before encode after infoValue, copiedInfo = before ++ (encode ++ after) ∧
        find "info" torrent.transcibe = some infoValue ∧ Derives encode infoValue.erase ∧
        infoValue.positionInSource = ⟨before.length, encode.length⟩ ∧
        infoHashField (computeHandshake torrent.infoHashByte) = sha1 encode := by
  obtain ⟨torrent, hsome, hposition⟩ := Option.bind_eq_some_iff.mp construct_copiedInfo
  have htorrent := Except.toOption_eq_some.mp hsome
  have hlength : copiedInfo.length < 2 ^ 29 := by
    rw [length_copiedInfo]
    omega
  exact ⟨torrent, htorrent, hposition, handshake_infoHash _ hlength htorrent⟩

end TorrentFile

end TorrentEngine
