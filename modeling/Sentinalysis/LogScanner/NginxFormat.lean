/-
# Sentinalysis.LogScanner.NginxFormat — the log format of the web server, and reading it back.

The web server writes a line for each request, in the format of the installation guide.  Texts of
the client are escaped, so that no quote and no control character is left in them, but a space is.
The parser reads back every record but those whose user has a space in the name.
-/
import Sentinalysis.Lib.Calendar
import Sentinalysis.LogScanner.NginxFields
import Sentinalysis.LogScanner.Pipeline

namespace Sentinalysis.LogScanner

open Lib Regex Calendar

/-! ## Escaping -/

/-- An upper-case hexadecimal digit. -/
def hexDigit (n : ℕ) : Char :=
  ['0', '1', '2', '3', '4', '5', '6', '7', '8', '9', 'A', 'B', 'C', 'D', 'E', 'F'].getD n '0'

/-- A byte in a value: quotes, backslashes, control characters and what is beyond ASCII are written
as `\\xHH`. -/
def escapeByte (byte : UInt8) : List Char :=
  if byte = 34 ∨ byte = 92 ∨ byte < 32 ∨ 126 < byte then
    ['\\', 'x', hexDigit (byte.toNat / 16), hexDigit (byte.toNat % 16)]
  else [Char.ofNat byte.toNat]

/-- A value; an empty one is written as a dash. -/
def escape (value : List UInt8) : List Char :=
  if value = [] then ['-'] else value.flatMap escapeByte

/-- The characters of an escaped value. -/
def Escaped (c : Char) : Prop := 32 ≤ c.toNat ∧ c.toNat < 127 ∧ c ≠ '"'

instance (c : Char) : Decidable (Escaped c) := inferInstanceAs (Decidable (_ ∧ _ ∧ _))

theorem escaped_hexDigit {n : ℕ} (h : n < 16) : Escaped (hexDigit n) ∧ hexDigit n ≠ ' ' := by
  revert n
  decide

theorem toNat_ofNat_byte (byte : UInt8) : (Char.ofNat byte.toNat).toNat = byte.toNat := by
  have hlt := byte.toNat_lt
  rw [Char.ofNat, dif_pos (show byte.toNat.isValidChar by left; omega)]
  rfl

/-- **A byte is escaped** to characters without a quote, and a space to itself only. -/
theorem escapeByte_spec (byte : UInt8) :
    (∀ c ∈ escapeByte byte, Escaped c) ∧ (' ' ∈ escapeByte byte ↔ byte = 32) := by
  have hlt := byte.toNat_lt
  unfold escapeByte
  split
  · next hspecial =>
    obtain ⟨hhigh, hhigh'⟩ := escaped_hexDigit (show byte.toNat / 16 < 16 by omega)
    obtain ⟨hlow, hlow'⟩ := escaped_hexDigit (show byte.toNat % 16 < 16 by omega)
    constructor
    · simp only [List.forall_mem_cons]
      exact ⟨by decide, by decide, hhigh, hlow, List.forall_mem_nil _⟩
    · refine iff_of_false ?_ ?_
      · simp [hhigh'.symm, hlow'.symm]
      · rintro rfl
        revert hspecial
        decide
  · next hplain =>
    simp only [not_or, UInt8.not_lt] at hplain
    obtain ⟨hquote, -, hcontrol, hascii⟩ := hplain
    have hchar := toNat_ofNat_byte byte
    have hle : 32 ≤ byte.toNat := UInt8.le_iff_toNat_le.mp hcontrol
    have hge : byte.toNat ≤ 126 := UInt8.le_iff_toNat_le.mp hascii
    constructor
    · rw [List.forall_mem_singleton]
      refine ⟨by omega, by omega, fun h => hquote ?_⟩
      rw [h] at hchar
      exact UInt8.toNat_inj.mp hchar.symm
    · rw [List.mem_singleton, eq_comm]
      constructor
      · intro h
        rw [h] at hchar
        exact UInt8.toNat_inj.mp hchar.symm
      · rintro rfl
        decide

theorem escape_ne_nil (value : List UInt8) : escape value ≠ [] := by
  unfold escape
  split
  · exact List.cons_ne_nil _ _
  · next hne =>
    obtain ⟨byte, value, rfl⟩ := List.exists_cons_of_ne_nil hne
    rw [List.flatMap_cons]
    unfold escapeByte
    split <;> simp

/-- **A value is escaped** to characters without a quote. -/
theorem escaped_of_mem {value : List UInt8} {c : Char} (h : c ∈ escape value) : Escaped c := by
  unfold escape at h
  split at h
  · rw [List.mem_singleton.mp h]
    decide
  · obtain ⟨byte, -, hc⟩ := List.mem_flatMap.mp h
    exact (escapeByte_spec byte).1 c hc

/-- Its spaces are spaces of the value. -/
theorem space_mem_escape_iff {value : List UInt8} : ' ' ∈ escape value ↔ 32 ∈ value := by
  unfold escape
  split
  · next hnil =>
    rw [hnil]
    exact iff_of_false (by decide) List.not_mem_nil
  · rw [List.mem_flatMap]
    simp only [(escapeByte_spec _).2, exists_eq_right]

theorem quote_not_mem_escape (value : List UInt8) : '"' ∉ escape value :=
  fun h => (escaped_of_mem h).2.2 rfl

/-! ## Numbers -/

/-- A number reads back, whatever zeros are before it. -/
theorem parseUnsigned_padded {bound width n : ℕ} (h : n < bound) :
    Text.parseUnsigned bound (String.ofList (padded '0' width n)) = some n := by
  have hall : ∀ c ∈ padded '0' width n, c.isDigit = true := fun c hc => isDigit_of_mem_padded hc
  have hne : padded '0' width n ≠ [] := by
    unfold padded List.leftpad
    exact fun hnil => Nat.toDigits_ne_nil (List.append_eq_nil_iff.mp hnil).2
  have hvalue : Nat.ofDigitChars 10 (padded '0' width n) 0 = n := by
    unfold padded List.leftpad
    rw [Nat.ofDigitChars_append, Nat.ofDigitChars_replicate_zero, Nat.mul_zero,
      Nat.ofDigitChars_ten_toDigits]
  have hdigits : Text.parseDigits (padded '0' width n) = some n := by
    rw [Text.parseDigits, if_pos ⟨hne, List.all_eq_true.mpr hall⟩, hvalue]
  unfold Text.parseUnsigned
  rw [String.toList_ofList]
  split
  · next rest hplus =>
    -- no digit is a plus sign
    have hdigit := hall '+' (by rw [hplus]; exact List.mem_cons_self)
    exact absurd hdigit (by decide)
  · dsimp only
    rw [hdigits]
    exact Option.filter_eq_some_iff.mpr ⟨rfl, by simpa using h⟩

theorem parseUnsigned_toDigits {bound n : ℕ} (h : n < bound) :
    Text.parseUnsigned bound (String.ofList (Nat.toDigits 10 n)) = some n := by
  have hpadded : padded '0' 0 n = Nat.toDigits 10 n := by simp [padded, List.leftpad]
  rw [← hpadded]
  exact parseUnsigned_padded h

/-! ## Records -/

/-- A request as the web server knows it.  The time is the local one of the server, which is so many
minutes ahead of UTC. -/
structure AccessRecord where
  remoteAddr : IpAddr
  remoteAddrText : String
  remoteUser : List UInt8
  timeLocal : CivilTime
  offset : ℤ
  instant : DateTime
  request : List UInt8
  status : ℕ
  bodyBytesSent : UInt64
  httpReferer : List UInt8
  httpUserAgent : List UInt8
  /-- The host, and the request time in milliseconds. -/
  vhost : Option (List UInt8 × ℕ)
  remoteAddr_text : IpAddr.parse remoteAddrText = some remoteAddr
  year_digits : 0 ≤ timeLocal.date.year ∧ timeLocal.date.year ≤ 9999
  offset_bound : -1440 < offset ∧ offset < 1440
  instant_eq : instant.nanos = (timeLocal.seconds - 60 * offset) * 1000000000
  status_lt : status < 1000

namespace AccessRecord

/-- `$time_local`: `%d/%b/%Y:%H:%M:%S %z`. -/
def timeText (r : AccessRecord) : List Char :=
  padded '0' 2 r.timeLocal.date.day ++ '/' :: ((monthName r.timeLocal.date.month).toList ++ '/' ::
    (padded '0' 4 r.timeLocal.date.year.toNat ++ ':' :: (r.timeLocal.clock ++ ' ' ::
    (if r.offset < 0 then '-' else '+') ::
    (padded '0' 2 (r.offset.natAbs / 60) ++ padded '0' 2 (r.offset.natAbs % 60)))))

/-- `$request_time`: seconds with three decimals. -/
def requestTimeText (millis : ℕ) : List Char :=
  Nat.toDigits 10 (millis / 1000) ++ '.' :: padded '0' 3 (millis % 1000)

/-- `$remote_addr - $remote_user [$time_local] "$request" $status $body_bytes_sent "$http_referer"
"$http_user_agent" "$host" $request_time`. -/
def fields (r : AccessRecord) : NginxFields where
  remoteAddr := r.remoteAddrText.toList
  ident := ['-']
  remoteUser := escape r.remoteUser
  timeLocal := r.timeText
  request := escape r.request
  status := padded '0' 3 r.status
  bodyBytesSent := Nat.toDigits 10 r.bodyBytesSent.toNat
  httpReferer := escape r.httpReferer
  httpUserAgent := escape r.httpUserAgent
  vhost := r.vhost.map fun vhost => (escape vhost.1, requestTimeText vhost.2)

/-- The line of a record. -/
def line (r : AccessRecord) : String := String.ofList r.fields.text

/-- What the entry of a record has. -/
def Inverted (r : AccessRecord) (entry : ParsedLogEntry) : Prop :=
  ReadFrom r.fields r.instant r.remoteAddr r.status r.bodyBytesSent.toNat entry

variable {r : AccessRecord}

/-- The time is written with digits, letters and few other characters. -/
theorem timeText_spec (r : AccessRecord) : r.timeText ≠ [] ∧ ']' ∉ r.timeText := by
  have hpadded : ∀ width n, ']' ∉ padded '0' width n := fun width n h =>
    absurd (isDigit_of_mem_padded h) (by decide)
  have hmonth : ']' ∉ (monthName r.timeLocal.date.month).toList := fun h =>
    absurd ((monthName_spec r.timeLocal.date.month).2 _ h).2.2 (by decide)
  have hsign : ']' ≠ if r.offset < 0 then '-' else '+' := by split <;> decide
  unfold timeText CivilTime.clock
  constructor
  · simp
  · simp [hpadded, hmonth, hsign]

theorem status_spec (u : Unicode) (r : AccessRecord) : (padded '0' 3 r.status).length = 3 ∧
    ∀ x ∈ padded '0' 3 r.status, u.decimalNumber x = true := by
  have hlength : (Nat.toDigits 10 r.status).length ≤ 3 :=
    (Nat.length_toDigits_le_iff (by decide) (by decide)).mpr r.status_lt
  refine ⟨?_, fun x hx => decimalNumber_of_isDigit u (isDigit_of_mem_padded hx)⟩
  rw [padded, List.length_leftpad]
  omega

/-- An escaped value without a space is one word. -/
theorem token_escape {value : List UInt8} (h : 32 ∉ value) : Token (escape value) := by
  refine token_of_graphic (escape_ne_nil value) fun c hc => ?_
  obtain ⟨hlow, hhigh, -⟩ := escaped_of_mem hc
  have hspace : c ≠ ' ' := by
    rintro rfl
    exact h (space_mem_escape_iff.mp hc)
  have hne : c.toNat ≠ 32 := fun heq => hspace (Char.toNat_inj.mp heq)
  exact ⟨by omega, hhigh⟩

theorem token_remoteAddr (r : AccessRecord) : Token r.remoteAddrText.toList := by
  obtain ⟨hne, hgraphic⟩ := IpAddr.graphic_of_parse r.remoteAddr_text
  exact token_of_graphic hne hgraphic

/-- Without a space in the user, the fields of a record are valid. -/
theorem valid_fields (u : Unicode) (h : 32 ∉ r.remoteUser) : r.fields.Valid u where
  remoteAddr := r.token_remoteAddr
  ident := show Token ['-'] from token_of_all (by decide) (by decide)
  remoteUser := token_escape h
  timeLocal := r.timeText_spec
  request := quote_not_mem_escape _
  status := r.status_spec u
  bodyBytesSent :=
    ⟨Nat.toDigits_ne_nil, fun _ hx => decimalNumber_of_isDigit u (isDigit_of_mem_toDigits hx)⟩
  httpReferer := quote_not_mem_escape _
  httpUserAgent := quote_not_mem_escape _
  vhost host requestTime hvhost := by
    obtain ⟨vhost, -, heq⟩ := Option.map_eq_some_iff.mp hvhost
    obtain ⟨rfl, rfl⟩ := Prod.mk.inj heq
    refine ⟨quote_not_mem_escape _, by simp [requestTimeText], fun x hx => ?_⟩
    rw [Bool.or_eq_true, beq_iff_eq]
    rcases List.mem_append.mp hx with hx | hx
    · exact Or.inl (decimalNumber_of_isDigit u (isDigit_of_mem_toDigits hx))
    · rcases List.mem_cons.mp hx with rfl | hx
      · exact Or.inr rfl
      · exact Or.inl (decimalNumber_of_isDigit u (isDigit_of_mem_padded hx))

/-- The line has no blanks around it. -/
theorem trim_line (r : AccessRecord) : trim r.line = r.fields.text := by
  obtain ⟨hne, haddr⟩ := r.token_remoteAddr
  obtain ⟨x, addr, hcons⟩ := List.exists_cons_of_ne_nil hne
  obtain ⟨middle, y, htext, hy⟩ : ∃ middle y,
      r.fields.text = r.remoteAddrText.toList ++ middle ++ [y] ∧ isWhitespace y = false := by
    obtain ⟨middle, hmiddle⟩ := r.fields.exists_text_eq
    cases hvhost : r.vhost with
    | none =>
      refine ⟨middle, '"', ?_, by decide⟩
      rw [hmiddle]
      simp [fields, hvhost, NginxFields.vhostText]
    | some vhost =>
      have hdigits : padded '0' 3 (vhost.2 % 1000) ≠ [] := by simp [padded, List.leftpad]
      obtain ⟨digits, y, hlast⟩ := List.eq_nil_or_concat' _ |>.resolve_left hdigits
      have hy : y ∈ padded '0' 3 (vhost.2 % 1000) := by simp [hlast]
      refine ⟨middle ++ '"' :: ' ' :: '"' :: (escape vhost.1 ++ '"' :: ' ' ::
        (Nat.toDigits 10 (vhost.2 / 1000) ++ '.' :: digits)), y, ?_,
        isWhitespace_of_isDigit (isDigit_of_mem_padded hy)⟩
      rw [hmiddle]
      simp [fields, hvhost, NginxFields.vhostText, requestTimeText, hlast]
  unfold trim line
  rw [String.toList_ofList, htext, hcons]
  exact trimList_eq_self _ (haddr x (hcons ▸ List.mem_cons_self)) hy

/-- A line whose user has a space has no time that can be read. -/
theorem not_ok_of_space {crates : Externals} (hspace : 32 ∈ r.remoteUser)
    (hbracket : ∀ s : String, '[' ∈ s.toList →
      crates.chrono.parseFromStr s "%d/%b/%Y:%H:%M:%S %z" = none) (entry : ParsedLogEntry) :
    nginxParse crates r.line ≠ .ok (some entry) := by
  intro h
  rw [nginxParse, trim_line] at h
  obtain ⟨groups, hcaptures, htime⟩ := timestamp_of_nginxParseTrimmed h
  obtain ⟨front, hmatch, -⟩ := matchesAt_of_captures hcaptures
  obtain ⟨-, f, hf, htext, rfl⟩ := NginxFields.matchesAt_nginxCombinedRe_iff.mp hmatch
  have hopen := NginxFields.bracket_mem_timeLocal hf.delimited (space_mem_escape_iff.mpr hspace)
    (quote_not_mem_escape _) r.token_remoteAddr.space (show ' ' ∉ ['-'] by decide)
    r.timeText_spec.2 htext.symm
  rw [NginxFields.nameUnwrap_groups, hbracket _ (by rwa [String.toList_ofList])] at htime
  cases htime

/-- **The parser inverts the format** exactly for the records whose user has no space. -/
theorem nginxParse_line_iff {crates : Externals} (r : AccessRecord)
    (hread : crates.chrono.parseFromStr (String.ofList r.timeText) "%d/%b/%Y:%H:%M:%S %z"
      = some r.instant)
    (hbracket : ∀ s : String, '[' ∈ s.toList →
      crates.chrono.parseFromStr s "%d/%b/%Y:%H:%M:%S %z" = none) :
    (∃ entry, nginxParse crates r.line = .ok (some entry) ∧ r.Inverted entry) ↔
      32 ∉ r.remoteUser := by
  constructor
  · rintro ⟨entry, hok, -⟩ hspace
    exact not_ok_of_space hspace hbracket entry hok
  · intro hspace
    have hstatus : Text.parseUnsigned (2 ^ 16) (String.ofList r.fields.status) = some r.status :=
      parseUnsigned_padded (by have := r.status_lt; omega)
    have hbytes : Text.parseUnsigned (2 ^ 64) (String.ofList r.fields.bodyBytesSent)
        = some r.bodyBytesSent.toNat := parseUnsigned_toDigits r.bodyBytesSent.toNat_lt
    have haddr : IpAddr.parse (String.ofList r.fields.remoteAddr) = some r.remoteAddr := by
      rw [show r.fields.remoteAddr = r.remoteAddrText.toList from rfl, String.ofList_toList]
      exact r.remoteAddr_text
    obtain ⟨entry, hok, hfields⟩ := nginxParseTrimmed_text
      (valid_fields crates.unicode hspace) haddr hread hstatus hbytes
    refine ⟨entry, ?_, hfields⟩
    rw [nginxParse, trim_line]
    exact hok

end AccessRecord

/-- A request of a user who is logged in. -/
def requestOf (user : String) : AccessRecord where
  remoteAddr := .V4 ⟨⟨192, by decide⟩, ⟨0, by decide⟩, ⟨2, by decide⟩, ⟨7, by decide⟩⟩
  remoteAddrText := "192.0.2.7"
  remoteUser := Text.bytes user
  timeLocal := .ofSeconds 1735689600
  offset := 0
  instant := newYear
  request := Text.bytes "GET / HTTP/1.1"
  status := 200
  bodyBytesSent := 12
  httpReferer := []
  httpUserAgent := Text.bytes "curl"
  vhost := some (Text.bytes "shop.example", 3)
  remoteAddr_text := by decide +kernel
  year_digits := by decide +kernel
  offset_bound := by decide
  instant_eq := by decide +kernel
  status_lt := by decide

example : (requestOf "").fields.text =
    ("192.0.2.7 - - [01/Jan/2025:00:00:00 +0000] \"GET / HTTP/1.1\" 200 12 "
      ++ "\"-\" \"curl\" \"shop.example\" 0.003").toList := by
  decide +kernel

theorem bracket_newYearCrates (s : String) (h : '[' ∈ s.toList) :
    newYearCrates.chrono.parseFromStr s "%d/%b/%Y:%H:%M:%S %z" = none := by
  refine if_neg ?_
  rintro rfl
  revert h
  decide

theorem nginxParse_requestOf_alice : ∃ entry,
    nginxParse newYearCrates (requestOf "alice").line = .ok (some entry) ∧
      (requestOf "alice").Inverted entry :=
  ((requestOf "alice").nginxParse_line_iff (by decide +kernel) bracket_newYearCrates).mpr
    (by decide)

/-- A user whose name has a space. -/
theorem not_nginxParse_requestOf_alice_b :
    ¬ ∃ entry, nginxParse newYearCrates (requestOf "alice b").line = .ok (some entry) ∧
      (requestOf "alice b").Inverted entry := by
  rintro ⟨entry, hok, -⟩
  exact AccessRecord.not_ok_of_space (by decide) bracket_newYearCrates entry hok

end Sentinalysis.LogScanner
