/-
# Sentinalysis.Hub.Messages — what is kept of a message.

A message loses its final newline.  What is longer than 16 KiB is cut at the last character
boundary within them and marked with an ellipsis.  The loop that looks for the boundary goes back
byte by byte; the shape of UTF-8 stops it after three.
-/
import Sentinalysis.Hub.Grpc
import Sentinalysis.Lib.Transition

namespace Sentinalysis.Hub.Validate

open Lib

/-- The loop that walks back: a state is `end`, and a step takes one from it. -/
def walk (b : List UInt8) : Machine ℕ Unit where
  step stop _ := if 0 < stop ∧ isCharBoundary b stop = false then some (stop - 1) else none

/-- The loop ends where `walkBack` says, after one step for each byte given up. -/
theorem walk_run (b : List UInt8) (n : ℕ) :
    (walk b).Run n (List.replicate (n - walkBack b n) ()) (walkBack b n) ∧
      (walk b).step (walkBack b n) () = none := by
  induction n with
  | zero => exact ⟨.nil, rfl⟩
  | succ n ih =>
    rw [walkBack]
    split
    · next hboundary =>
      refine ⟨by rw [Nat.sub_self]; exact .nil, ?_⟩
      exact if_neg fun h => by rw [hboundary] at h; cases h.2
    · next hinside =>
      have hstep : (walk b).step (n + 1) () = some n :=
        if_pos ⟨Nat.succ_pos n, Bool.not_eq_true _ ▸ hinside⟩
      have hle := (walkBack_spec b n).1
      rw [Nat.succ_sub hle, List.replicate_succ]
      exact ⟨ih.1.cons hstep, ih.2⟩

/-- `t` is `s` without its final newline, if it has one. -/
def WithoutNewline (s t : String) : Prop := s = t ++ "\n" ∨ s = t ∧ ∀ u, s ≠ u ++ "\n"

/-- What becomes of a text that is too long: `kept` is the beginning that is kept, and `out` what is
made of it. -/
structure Cut (t kept out : String) : Prop where
  longest : Text.IsLongest 16384 t kept
  len_ge : 16381 ≤ Text.len kept
  marked : out = kept ++ "…"
  /-- The loop ends, and soon. -/
  walked : ∃ steps ≤ 3, (walk (Text.bytes t)).Run 16384 (List.replicate steps ()) (Text.len kept) ∧
    (walk (Text.bytes t)).step (Text.len kept) () = none
  /-- The slice up to where it ends does not panic. -/
  sliced : Text.get t 0 (Text.len kept) = some kept
  again : sanitizeMessage out = out

theorem withoutNewline_stripNewline (s : String) : WithoutNewline s (Text.stripNewline s) := by
  by_cases hlast : s.toList.getLast? = some '\n'
  · refine Or.inl ?_
    have hsplit := List.dropLast_append_getLast? '\n' hlast
    rw [Text.stripNewline, if_pos hlast, ← String.toList_inj, String.toList_append,
      String.toList_ofList]
    exact hsplit.symm
  · refine Or.inr ⟨by rw [Text.stripNewline, if_neg hlast], ?_⟩
    rintro u rfl
    exact hlast (by simp)

/-- A text that ends in an ellipsis has no final newline to lose. -/
theorem stripNewline_ellipsis (kept : String) :
    Text.stripNewline (kept ++ "…") = kept ++ "…" := by
  refine if_neg fun hlast => ?_
  rw [String.toList_append] at hlast
  simp at hlast

/-- **What is cut and marked is not cut again**: the ellipsis is the one character too many. -/
theorem sanitizeMessage_marked {kept : String} (hle : Text.len kept ≤ maxMessageBytes) :
    sanitizeMessage (kept ++ "…") = kept ++ "…" := by
  rcases sanitizeMessage_cases (kept ++ "…") with
    ⟨-, hsame⟩ | ⟨kept', rest, hsplit, hle', hlong, hcut, heq⟩
  · rw [hsame, stripNewline_ellipsis]
  · rw [stripNewline_ellipsis] at hsplit
    have hthis : Text.IsLongest maxMessageBytes (kept ++ "…") kept :=
      Text.isLongest_snoc (c := '…') hle (hsplit ▸ hlong)
    have hthat : Text.IsLongest maxMessageBytes (kept ++ "…") kept' :=
      hsplit ▸ Text.isLongest_of_cut hle' hcut
    rw [heq, hthis.unique hthat]

/-- The walk ends where the longest beginning does. -/
theorem walkBack_eq_len {n : ℕ} {t kept : String} (h : Text.IsLongest n t kept) :
    walkBack (Text.bytes t) n = Text.len kept := by
  obtain ⟨hle, hstop, hlast⟩ := walkBack_spec (Text.bytes t) n
  obtain ⟨kept', rest, rfl, hlen⟩ := isCharBoundary_iff.mp hstop
  rw [← hlen] at hle hlast ⊢
  have hlongest : Text.IsLongest n (kept' ++ rest) kept' :=
    Text.isLongest_of_cut hle fun i hlt hi hboundary =>
      hlast i hlt hi (isCharBoundary_iff.mpr hboundary)
  rw [h.unique hlongest]

/-- A text that is too long is cut. -/
theorem exists_cut {raw : String} (hlong : maxMessageBytes < Text.len (Text.stripNewline raw)) :
    ∃ kept, Cut (Text.stripNewline raw) kept (sanitizeMessage raw) := by
  rcases sanitizeMessage_cases raw with ⟨hshort, -⟩ | ⟨kept, rest, hsplit, hle, -, hcut, heq⟩
  · exact absurd hshort (not_le.mpr hlong)
  rw [hsplit] at hlong ⊢
  have hlongest : Text.IsLongest maxMessageBytes (kept ++ rest) kept :=
    Text.isLongest_of_cut hle hcut
  have hlt : maxMessageBytes < Text.len kept + 4 := hlongest.lt_len_add hlong
  have hmax : maxMessageBytes = 16384 := rfl
  obtain ⟨hrun, hend⟩ := walk_run (Text.bytes (kept ++ rest)) maxMessageBytes
  rw [walkBack_eq_len hlongest] at hrun hend
  refine ⟨kept, hlongest, by omega, heq, ⟨_, by omega, hrun, hend⟩, ?_, ?_⟩
  · have hget := Text.get_append "" kept rest
    rwa [String.empty_append, show Text.len "" = 0 from rfl, Nat.zero_add] at hget
  · rw [heq]
    exact sanitizeMessage_marked hle

/-- **Messages are kept as they are, or cut at the last character that fits.**  Without its final
newline a message of up to 16 KiB is kept whole; of a longer one the longest beginning of so many
bytes is kept and marked, after a search of three steps at most, and what is marked is kept whole. -/
theorem sanitizeMessage_keepsLongest (raw : String) : ∃ t, WithoutNewline raw t ∧
    (Text.len t ≤ 16384 → sanitizeMessage raw = t) ∧
    (16384 < Text.len t → ∃ kept, Cut t kept (sanitizeMessage raw)) := by
  refine ⟨Text.stripNewline raw, withoutNewline_stripNewline raw, ?_, exists_cut⟩
  intro hshort
  exact if_pos hshort

/-! ## In the records -/

/-- The ellipsis is three bytes. -/
theorem len_sanitizeMessage_le (raw : String) :
    Text.len (sanitizeMessage raw) ≤ maxMessageBytes + 3 := by
  rcases sanitizeMessage_cases raw with ⟨hshort, hsame⟩ | ⟨kept, rest, -, hle, -, -, heq⟩
  · rw [hsame]
    exact Nat.le_add_right_of_le hshort
  · have hellipsis : Text.len "…" = 3 := rfl
    rw [heq, Text.len_append, hellipsis]
    exact Nat.add_le_add_right hle 3

/-- The texts of a record that come from messages have no more than 16 KiB and an ellipsis. -/
structure MessagesFit (entry : Db.InsertLogEntry) : Prop where
  message : Text.len entry.message ≤ maxMessageBytes + 3
  rawLine : ∀ raw ∈ entry.rawLine, Text.len raw ≤ maxMessageBytes + 3

theorem messagesFit_of_validateLogLine {clock : Clock} {line : LogLine} {hostname : String}
    {entry : Db.InsertLogEntry} (h : validateLogLine clock line hostname = .ok entry) :
    MessagesFit entry := by
  obtain ⟨-, rfl⟩ := validateLogLine_eq_ok.mp h
  refine ⟨len_sanitizeMessage_le _, fun raw hraw => ?_⟩
  obtain rfl := Option.some.inj hraw
  exact len_sanitizeMessage_le _

theorem messagesFit_of_validateParsedEntry {clock : Clock} {parsed : ParsedLogEntry}
    {hostname : String} {ingest : ParsedIngest}
    (h : validateParsedEntry clock parsed hostname = .ok ingest) : MessagesFit ingest.entry := by
  obtain ⟨-, rfl⟩ := validateParsedEntry_eq_ok.mp h
  refine ⟨len_sanitizeMessage_le _, fun raw hraw => ?_⟩
  obtain ⟨_, -, rfl⟩ := Option.map_eq_some_iff.mp hraw
  exact len_sanitizeMessage_le _

end Sentinalysis.Hub.Validate
