/-
# Sentinalysis.Hub.KeyFormat — the keys that are made and the keys that are parsed.

A key is `snt_<id>_<secret>`, where the id has eight hexadecimal digits and the secret 43 characters
of an alphabet that has the separator in it.  Lengths are fixed, so that nothing else is a key and
the id stands between two character boundaries.  The encoder and the digest are parameters.
-/
import Sentinalysis.Hub.Auth
import Sentinalysis.Lib.RegexTakes
import Sentinalysis.Lib.Utf8

namespace Sentinalysis.Hub

open Lib

/-- `[0-9a-f]`. -/
def isHexDigit (c : Char) : Bool := c.isDigit || ('a' ≤ c && c ≤ 'f')

/-- `[A-Za-z0-9_-]`. -/
def isBase64url (c : Char) : Bool := c.isAlphanum || c == '_' || c == '-'

/-- The text of a key. -/
structure KeyText (s keyId secret : String) : Prop where
  text : s = keyPrefix ++ keyId ++ "_" ++ secret
  length_keyId : keyId.toList.length = keyIdLen
  hex : ∀ c ∈ keyId.toList, isHexDigit c = true
  length_secret : secret.toList.length = secretLen
  base64url : ∀ c ∈ secret.toList, isBase64url c = true

/-! ## Making keys -/

/-- The libraries that a key is made with. -/
structure KeyCrypto where
  /-- `URL_SAFE_NO_PAD.encode`. -/
  encode : List UInt8 → String
  /-- `Sha256::digest`. -/
  sha256 : List UInt8 → List UInt8

/-- 32 bytes are encoded by 43 characters of the alphabet. -/
def KeyCrypto.Encodes (crypto : KeyCrypto) : Prop :=
  ∀ bytes : List UInt8, bytes.length = 32 →
    (crypto.encode bytes).toList.length = 43 ∧
      ∀ c ∈ (crypto.encode bytes).toList, isBase64url c = true

/-- A digest has 32 bytes. -/
def KeyCrypto.Digests (crypto : KeyCrypto) : Prop :=
  ∀ bytes : List UInt8, (crypto.sha256 bytes).length = 32

/-- `{b:02x}`. -/
def hexByte (b : UInt8) : List Char :=
  [Nat.digitChar (b.toNat / 16), Nat.digitChar (b.toNat % 16)]

/-- `hex_encode`. -/
def hexEncode (bytes : List UInt8) : String :=
  bytes.foldl (fun out b => out ++ String.ofList (hexByte b)) ""

/-- `generate_key`: the key and its id. -/
def generateKey (crypto : KeyCrypto) (secretBytes : List UInt8) : String × String :=
  let secret := crypto.encode secretBytes
  let digest := crypto.sha256 (Text.bytes secret)
  let keyId := hexEncode (digest.take 4)
  (keyPrefix ++ keyId ++ "_" ++ secret, keyId)

theorem toList_hexEncode (bytes : List UInt8) : (hexEncode bytes).toList = bytes.flatMap hexByte := by
  have hfold : ∀ out : String, (bytes.foldl (fun out b => out ++ String.ofList (hexByte b)) out).toList
      = out.toList ++ bytes.flatMap hexByte := by
    induction bytes with
    | nil => simp
    | cons b bytes ih =>
      intro out
      rw [List.foldl_cons, ih, String.toList_append, String.toList_ofList, List.flatMap_cons,
        List.append_assoc]
  exact hfold ""

theorem length_hexEncode (bytes : List UInt8) :
    (hexEncode bytes).toList.length = bytes.length * 2 := by
  rw [toList_hexEncode, List.length_flatMap]
  induction bytes with
  | nil => rfl
  | cons b bytes ih =>
    rw [List.map_cons, List.sum_cons, ih, List.length_cons]
    have hbyte : (hexByte b).length = 2 := rfl
    omega

theorem isHexDigit_digitChar {n : ℕ} (h : n < 16) : isHexDigit (Nat.digitChar n) = true := by
  revert n
  decide

theorem isHexDigit_of_mem_hexEncode {bytes : List UInt8} {c : Char}
    (h : c ∈ (hexEncode bytes).toList) : isHexDigit c = true := by
  rw [toList_hexEncode, List.mem_flatMap] at h
  obtain ⟨b, -, hc⟩ := h
  have hb := b.toNat_lt
  rcases List.mem_cons.mp hc with rfl | hc
  · exact isHexDigit_digitChar (by omega)
  · obtain rfl := List.mem_singleton.mp hc
    exact isHexDigit_digitChar (by omega)

/-- What is made is the text of a key. -/
theorem keyText_generateKey {crypto : KeyCrypto} (hencode : crypto.Encodes)
    (hdigest : crypto.Digests) {secretBytes : List UInt8} (hlength : secretBytes.length = 32) :
    KeyText (generateKey crypto secretBytes).1 (generateKey crypto secretBytes).2
      (crypto.encode secretBytes) where
  text := rfl
  length_keyId := by
    have htake : ((crypto.sha256 (Text.bytes (crypto.encode secretBytes))).take 4).length = 4 := by
      rw [List.length_take, hdigest]
      rfl
    show (hexEncode _).toList.length = 8
    rw [length_hexEncode, htake]
  hex c hc := isHexDigit_of_mem_hexEncode hc
  length_secret := (hencode secretBytes hlength).1
  base64url := (hencode secretBytes hlength).2

/-! ## Parsing keys -/

theorem keyFormatRe_eq : keyFormatRe =
    .concat [.bos, Regex.lit keyPrefix, Regex.times keyIdLen (.cls isHexDigit), Regex.lit "_",
      Regex.times secretLen (.cls isBase64url), .eos] := rfl

/-- **A text is well-formed exactly when it is the text of a key.** -/
theorem isWellformed_iff {s : String} :
    isWellformed s = true ↔ ∃ keyId secret, KeyText s keyId secret := by
  rw [isWellformed, keyFormatRe_eq, Regex.isMatch_iff_matchesAt]
  simp only [Regex.matchesAt_bos_iff]
  -- from left to right: the prefix, the id, the separator, the secret, and the end of the text
  simp only [Regex.MatchesAt, Regex.takes_lit, Regex.takes_times, Regex.takes_eos]
  constructor
  · rintro ⟨_, _, rfl, _, back, htext, _, rfl, keyId, _, ⟨hlength, hhex⟩, rfl, _, rfl, secret, _,
      ⟨hsecret, halphabet⟩, rfl, rfl, rfl, -⟩
    refine ⟨String.ofList keyId, String.ofList secret, ?_, ?_, ?_, ?_, ?_⟩
    · rw [← String.toList_inj, htext]
      simp
    all_goals rwa [String.toList_ofList]
  · rintro ⟨keyId, secret, rfl, hlength, hhex, hsecret, halphabet⟩
    refine ⟨[], [], rfl, _, [], ?_, _, rfl, keyId.toList, _, ⟨hlength, hhex⟩, rfl, _, rfl,
      secret.toList, [], ⟨hsecret, halphabet⟩, rfl, rfl, rfl, rfl⟩
    simp

/-- The id of a key is what parsing finds. -/
theorem parseKeyId_of_keyText {s keyId secret : String} (h : KeyText s keyId secret) :
    parseKeyId s = some keyId := by
  have hwellformed : isWellformed s = true := isWellformed_iff.mpr ⟨keyId, secret, h⟩
  rw [parseKeyId, if_pos hwellformed]
  have htoList : s.toList = keyPrefix.toList ++ (keyId.toList ++ ("_" ++ secret).toList) := by
    rw [h.text, String.append_assoc, String.append_assoc, String.toList_append,
      String.toList_append]
  rw [htoList, List.drop_left, List.take_left' h.length_keyId, String.ofList_toList]

theorem keyText_of_parseKeyId {s keyId : String} (h : parseKeyId s = some keyId) :
    ∃ secret, KeyText s keyId secret := by
  cases hwellformed : isWellformed s with
  | false =>
    rw [parseKeyId, hwellformed] at h
    cases h
  | true =>
    obtain ⟨keyId', secret, htext⟩ := isWellformed_iff.mp hwellformed
    obtain rfl := Option.some.inj (h.symm.trans (parseKeyId_of_keyText htext))
    exact ⟨secret, htext⟩

theorem ascii_of_isHexDigit {c : Char} (h : isHexDigit c = true) : c.toNat < 128 := by
  unfold isHexDigit at h
  rcases (Bool.or_eq_true _ _).mp h with h | h
  · have hbounds := Regex.bounds_of_isDigit h
    omega
  · have hle : c ≤ 'f' := of_decide_eq_true ((Bool.and_eq_true _ _).mp h).2
    exact Nat.lt_of_le_of_lt hle (by decide)

/-- In bytes as well, the id comes after the prefix. -/
theorem get_of_keyText {s keyId secret : String} (h : KeyText s keyId secret) :
    Text.get s (Text.len keyPrefix) (Text.len keyPrefix + keyIdLen) = some keyId := by
  -- a hexadecimal digit is one byte
  have hlen : Text.len keyId = keyIdLen := by
    rw [Text.len_of_ascii fun c hc => ascii_of_isHexDigit (h.hex c hc), h.length_keyId]
  have hget := Text.get_append keyPrefix keyId ("_" ++ secret)
  rw [hlen] at hget
  rw [h.text, String.append_assoc]
  exact hget

/-- `parse_key_id` as it slices: by bytes. -/
theorem parseKeyId_eq_get (s : String) : parseKeyId s =
    if isWellformed s then Text.get s (Text.len keyPrefix) (Text.len keyPrefix + keyIdLen)
    else none := by
  cases hwellformed : isWellformed s with
  | false => simp [parseKeyId, hwellformed]
  | true =>
    obtain ⟨keyId, secret, htext⟩ := isWellformed_iff.mp hwellformed
    rw [parseKeyId_of_keyText htext, get_of_keyText htext]
    rfl

/-- **Keys are parsed as they are made.**  Every key that is made is well-formed and has its id; a
text has an id exactly when it is the prefix, the id, a separator and a secret with nothing before
or behind; and the range of bytes that is taken for the id has an id in it. -/
theorem generateKey_parseKeyId {crypto : KeyCrypto} (hencode : crypto.Encodes)
    (hdigest : crypto.Digests) :
    (∀ secretBytes : List UInt8, secretBytes.length = 32 →
      isWellformed (generateKey crypto secretBytes).1 = true ∧
        parseKeyId (generateKey crypto secretBytes).1
          = some (generateKey crypto secretBytes).2) ∧
      (∀ s keyId, parseKeyId s = some keyId ↔ ∃ secret, KeyText s keyId secret) ∧
      (∀ s, parseKeyId s =
        if isWellformed s then Text.get s (Text.len keyPrefix) (Text.len keyPrefix + keyIdLen)
        else none) ∧
      ∀ s, isWellformed s = true →
        (Text.get s (Text.len keyPrefix) (Text.len keyPrefix + keyIdLen)).isSome = true := by
  refine ⟨?_, ?_, parseKeyId_eq_get, ?_⟩
  · intro secretBytes hlength
    have htext := keyText_generateKey hencode hdigest hlength
    exact ⟨isWellformed_iff.mpr ⟨_, _, htext⟩, parseKeyId_of_keyText htext⟩
  · intro s keyId
    exact ⟨keyText_of_parseKeyId, fun ⟨secret, htext⟩ => parseKeyId_of_keyText htext⟩
  · intro s hwellformed
    obtain ⟨keyId, secret, htext⟩ := isWellformed_iff.mp hwellformed
    rw [get_of_keyText htext]
    rfl

/-- What the libraries make of 32 zeros: the secret is 43 times `A`. -/
def zeroCrypto : KeyCrypto where
  encode _ := String.ofList (List.replicate 43 'A')
  sha256 _ := [15, 0, 115, 133, 182, 249, 212, 183, 238, 178, 116, 134, 5, 175, 225, 169, 132, 160,
    163, 191, 163, 240, 20, 208, 158, 42, 120, 76, 233, 229, 205, 26]

/-- The key of 32 zeros. -/
theorem generateKey_parseKeyId_zeros :
    zeroCrypto.Encodes ∧ zeroCrypto.Digests ∧
      (generateKey zeroCrypto (List.replicate 32 0)).1
        = "snt_0f007385_AAAAAAAAAAAAAAAAAAAAAAAAAAAAAAAAAAAAAAAAAAA" ∧
      parseKeyId (generateKey zeroCrypto (List.replicate 32 0)).1 = some "0f007385" := by
  have hencode : zeroCrypto.Encodes := by
    intro bytes _
    show (String.ofList _).toList.length = 43 ∧ ∀ c ∈ (String.ofList _).toList, _
    rw [String.toList_ofList]
    refine ⟨List.length_replicate, fun c hc => ?_⟩
    rw [List.eq_of_mem_replicate hc]
    rfl
  have hdigest : zeroCrypto.Digests := fun _ => rfl
  have hid : (generateKey zeroCrypto (List.replicate 32 0)).2 = "0f007385" := by decide
  refine ⟨hencode, hdigest, by decide, ?_⟩
  rw [((generateKey_parseKeyId hencode hdigest).1 _ List.length_replicate).2, hid]

end Sentinalysis.Hub
