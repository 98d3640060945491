/-
# Sentinalysis.LogScanner.SyslogTime — the instant of a line without a year.

A syslog line gives the month, the day and the time of day of the host.  The parser puts in the year
of the clock and takes the result as UTC.  Both are guesses: the year is another one where the line
was written before a new year and read after it, and the host need not be on UTC.
-/
import Sentinalysis.Lib.Calendar
import Sentinalysis.Lib.RegexTakes
import Sentinalysis.LogScanner.Pipeline

namespace Sentinalysis.LogScanner

open Lib Regex Calendar

/-! ## The lines -/

/-- `%b %e %H:%M:%S`. -/
def stamp (c : CivilTime) : List Char :=
  (monthName c.date.month).toList ++ ' ' :: (padded ' ' 2 c.date.day ++ ' ' :: c.clock)

/-- What follows the timestamp of a syslog line: the host, the tag and a message that is not
blank. -/
structure SyslogTail where
  host : List Char
  tag : List Char
  message : List Char
  host_token : Token host
  tag_token : Token tag
  message_line : '\n' ∉ message
  message_text : ∃ x ∈ message, isWhitespace x = false

/-- The text of the rest of the line. -/
def SyslogTail.text (tail : SyslogTail) : List Char :=
  ' ' :: (tail.host ++ ' ' :: (tail.tag ++ ':' :: ' ' :: tail.message))

/-- A syslog line. -/
def syslogLine (c : CivilTime) (tail : SyslogTail) : String := String.ofList (stamp c ++ tail.text)

/-! ## What the expression takes of a line -/

/-- Three numbers of two digits. -/
def IsClock (u : Unicode) (w : List Char) : Prop := ∃ hour minute second : List Char,
  (∀ part ∈ [hour, minute, second], part.length = 2 ∧ ∀ x ∈ part, u.decimalNumber x = true) ∧
  w = hour ++ ':' :: (minute ++ ':' :: second)

theorem IsClock.length {u : Unicode} {w : List Char} (h : IsClock u w) : w.length = 8 := by
  obtain ⟨hour, minute, second, hparts, rfl⟩ := h
  simp only [List.forall_mem_cons] at hparts
  simp [hparts.1.1, hparts.2.1.1, hparts.2.2.1.1]

theorem IsClock.head {u : Unicode} {w : List Char} (h : IsClock u w) :
    ∃ x rest, w = x :: rest ∧ u.decimalNumber x = true := by
  obtain ⟨hour, minute, second, hparts, rfl⟩ := h
  obtain ⟨⟨hlength, hhour⟩, -⟩ := List.forall_mem_cons.mp hparts
  obtain ⟨x, hour, rfl⟩ := List.exists_cons_of_length_pos (l := hour) (by omega)
  exact ⟨x, _, rfl, hhour x List.mem_cons_self⟩

theorem isClock_clock (u : Unicode) (c : CivilTime) : IsClock u c.clock := by
  have hpart : ∀ {n : ℕ}, n < 60 → (padded '0' 2 n).length = 2 ∧
      ∀ x ∈ padded '0' 2 n, u.decimalNumber x = true := fun hn =>
    ⟨length_padded (by omega), fun x hx => decimalNumber_of_isDigit u (isDigit_of_mem_padded hx)⟩
  have hhour := c.hour_lt
  refine ⟨_, _, _, ?_, rfl⟩
  simp only [List.forall_mem_cons]
  exact ⟨hpart (by omega), hpart c.minute_lt, hpart c.second_lt, List.forall_mem_nil _⟩

section Expression

variable {u : Unicode} {before w back : List Char} {groups : Captures SyslogGroup}

/-- The time of day in the expression. -/
theorem plain_clock : Plain (concat [times 2 (digit u), lit ":", times 2 (digit u), lit ":",
    times 2 (digit u)] : Regex SyslogGroup) (IsClock u) := by
  intro before w back groups
  unfold digit
  simp only [takes_times, takes_lit, takes_nil]
  constructor
  · rintro ⟨hour, _, hhour, rfl, _, rfl, minute, _, hminute, rfl, _, rfl, second, _, hsecond, rfl,
      rfl, rfl⟩
    refine ⟨⟨hour, minute, second, ?_, by simp⟩, rfl⟩
    simp only [List.forall_mem_cons]
    exact ⟨hhour, hminute, hsecond, List.forall_mem_nil _⟩
  · rintro ⟨⟨hour, minute, second, hparts, rfl⟩, rfl⟩
    simp only [List.forall_mem_cons] at hparts
    exact ⟨hour, _, hparts.1, rfl, _, rfl, minute, _, hparts.2.1, rfl, _, rfl, second, [],
      hparts.2.2.1, (List.append_nil second).symm, rfl, rfl⟩

/-- The groups of the timestamp. -/
def timeGroups : List SyslogGroup := [.month, .day, .time]

/-- What follows the timestamp begins with a blank, and leaves the groups of the timestamp alone. -/
theorem takes_tail (h : Takes (concat (syslogTailRe u)) before w back groups) :
    (∃ x rest, w = x :: rest ∧ isWhitespace x = true) ∧
      ∀ entry ∈ groups, entry.1 ∉ timeGroups := by
  unfold syslogTailRe space nonSpace digit any at h
  simp only [takes_many1, takes_cap_many1, takes_cap_many1Lazy, takes_opt, takes_concat_concat,
    List.cons_append, List.nil_append, takes_lit, takes_cap_many, takes_eos] at h
  obtain ⟨blank, _, ⟨hne, hblank⟩, rfl, host, _, _, -, rfl, rfl, _, _, -, rfl, service, _, _, -,
    rfl, rfl, h⟩ := h
  obtain ⟨x, blank, rfl⟩ := List.exists_cons_of_ne_nil hne
  refine ⟨⟨x, _, rfl, hblank x List.mem_cons_self⟩, ?_⟩
  rcases h with ⟨_, rfl, pid, _, _, -, rfl, rfl, _, rfl, _, rfl, _, _, -, rfl, message, _, _, -,
    rfl, rfl, -, rfl, rfl⟩ | ⟨_, rfl, _, _, -, rfl, message, _, _, -, rfl, rfl, -, rfl, rfl⟩ <;>
  simp [timeGroups]

theorem blank_space : [' '] ≠ [] ∧ ∀ x ∈ [' '], isWhitespace x = true :=
  ⟨List.cons_ne_nil _ _, List.forall_mem_singleton.mpr (by decide)⟩

/-- A host, a tag and a message on one line are taken. -/
theorem takes_tail_text {host tag message : List Char} (hhost : Token host) (htag : Token tag)
    (hmessage : '\n' ∉ message) : ∃ groups, Takes (concat (syslogTailRe u)) before
      (' ' :: (host ++ ' ' :: (tag ++ ':' :: ' ' :: message))) [] groups := by
  unfold syslogTailRe space nonSpace digit any
  simp only [takes_many1, takes_cap_many1, takes_cap_many1Lazy, takes_opt, takes_concat_concat,
    List.cons_append, List.nil_append, takes_lit, takes_cap_many, takes_eos]
  refine ⟨_, [' '], _, blank_space, rfl, host, _, _, ⟨hhost.1, ?_⟩, rfl, rfl, [' '], _, blank_space,
    rfl, tag, _, _, ⟨htag.1, ?_⟩, rfl, rfl, Or.inr ⟨_, rfl, [' '], _, blank_space, rfl, message, [],
    [], ?_, (List.append_nil message).symm, rfl, trivial, rfl, rfl⟩⟩
  · simpa using hhost.2
  · simpa using htag.2
  · intro x hx
    rw [bne_iff_ne]
    rintro rfl
    exact hmessage hx

/-- The groups of the timestamp in a match. -/
def stampGroups (month day time : List Char) : Captures SyslogGroup :=
  [(.time, time), (.day, day), (.month, month)]

section StampGroups

variable (month day time : List Char)

theorem nameUnwrap_month :
    (stampGroups month day time).nameUnwrap .month = String.ofList month := rfl

theorem nameUnwrap_day : (stampGroups month day time).nameUnwrap .day = String.ofList day := rfl

theorem nameUnwrap_time : (stampGroups month day time).nameUnwrap .time = String.ofList time := rfl

end StampGroups

/-- What the expression takes: the parts of the timestamp with blanks between them, and the rest. -/
theorem matchesAt_syslogTimestampRe_iff {text front : List Char} :
    MatchesAt (syslogTimestampRe u) text front groups ↔ front = [] ∧
      ∃ month blank day blank' time rest back more,
        (month.length = 3 ∧ ∀ x ∈ month, u.word x = true) ∧
        (blank ≠ [] ∧ ∀ x ∈ blank, isWhitespace x = true) ∧
        (day ≠ [] ∧ day.length ≤ 2 ∧ ∀ x ∈ day, u.decimalNumber x = true) ∧
        (blank' ≠ [] ∧ ∀ x ∈ blank', isWhitespace x = true) ∧ IsClock u time ∧
        text = month ++ (blank ++ (day ++ (blank' ++ (time ++ (rest ++ back))))) ∧
        Takes (concat (syslogTailRe u)) (time.reverse ++ (blank'.reverse ++ (day.reverse ++
          (blank.reverse ++ month.reverse)))) rest back more ∧
        groups = more ++ stampGroups month day time := by
  unfold syslogTimestampRe stampGroups space
  simp only [List.cons_append, List.nil_append]
  rw [matchesAt_bos_iff]
  refine and_congr_right fun _ => ?_
  unfold MatchesAt
  have hday : seq (digit u) (opt (digit u)) = (upTo 1 (cls u.decimalNumber) : Regex SyslogGroup) :=
    rfl
  rw [hday]
  unfold wordChar
  simp only [takes_cap_times, takes_many1, takes_cap_upTo, plain_clock.takes_cap_cons,
    List.reverse_nil, List.append_nil, List.nil_append]
  constructor
  · rintro ⟨_, back, rfl, month, _, _, hmonth, rfl, rfl, blank, _, hblank, rfl, day, _, _, hday,
      rfl, rfl, blank', _, hblank', rfl, time, rest, more, htime, rfl, rfl, htail⟩
    exact ⟨month, blank, day, blank', time, rest, back, more, hmonth, hblank, hday, hblank', htime,
      by simp only [List.append_assoc], htail, by simp only [List.append_assoc, List.cons_append,
        List.nil_append]⟩
  · rintro ⟨month, blank, day, blank', time, rest, back, more, hmonth, hblank, hday, hblank', htime,
      rfl, htail, rfl⟩
    exact ⟨month ++ (blank ++ (day ++ (blank' ++ (time ++ rest)))), back,
      by simp only [List.append_assoc], month, _, _, hmonth, rfl,
      by simp only [List.append_assoc, List.cons_append, List.nil_append], blank, _, hblank, rfl,
      day, _, _, hday, rfl, rfl, blank', _, hblank', rfl, time, rest, more, htime, rfl, rfl, htail⟩

end Expression

/-! ## The timestamp of a line -/

section Stamp

variable {u : Unicode} {c : CivilTime}

/-- The parts of the timestamp, with the blanks between them. -/
theorem stamp_append (c : CivilTime) (rest : List Char) : ∃ blank, blank ≠ [] ∧
    (∀ x ∈ blank, x = ' ') ∧ stamp c ++ rest = (monthName c.date.month).toList ++ (blank ++
      (Nat.toDigits 10 c.date.day ++ ([' '] ++ (c.clock ++ rest)))) := by
  refine ⟨' ' :: List.replicate (2 - (Nat.toDigits 10 c.date.day).length) ' ',
    List.cons_ne_nil _ _, ?_, ?_⟩
  · rw [List.forall_mem_cons]
    exact ⟨rfl, fun x hx => (List.mem_replicate.mp hx).2⟩
  · simp [stamp, padded, List.leftpad]

theorem isDigit_head_clock (c : CivilTime) : ∃ x rest, c.clock = x :: rest ∧ x.isDigit = true := by
  have hlt := c.hour_lt
  have hlength : (padded '0' 2 c.hour).length = 2 := length_padded (by omega)
  obtain ⟨x, hour, hhour⟩ := List.exists_cons_of_length_pos (l := padded '0' 2 c.hour) (by omega)
  have hmem : x ∈ padded '0' 2 c.hour := hhour ▸ List.mem_cons_self
  exact ⟨x, _, by rw [CivilTime.clock, hhour]; rfl, isDigit_of_mem_padded hmem⟩

/-- **The timestamp is read in one way.** -/
theorem stamp_parts {rest month blank day blank' time back : List Char} (hmonth : month.length = 3)
    (hblank : blank ≠ [] ∧ ∀ x ∈ blank, isWhitespace x = true)
    (hday : day ≠ [] ∧ ∀ x ∈ day, u.decimalNumber x = true)
    (hblank' : blank' ≠ [] ∧ ∀ x ∈ blank', isWhitespace x = true) (htime : IsClock u time)
    (h : stamp c ++ rest = month ++ (blank ++ (day ++ (blank' ++ (time ++ back))))) :
    month = (monthName c.date.month).toList ∧ day = Nat.toDigits 10 c.date.day ∧
      time = c.clock := by
  obtain ⟨pad, hpad, hspaces, hstamp⟩ := stamp_append c rest
  rw [hstamp] at h
  have hspace : u.decimalNumber ' ' = false := u.decimalNumber_ascii ' ' (by decide)
  have hdigits : ∀ x ∈ Nat.toDigits 10 c.date.day, x.isDigit = true := fun x hx =>
    isDigit_of_mem_toDigits hx
  have hhead : ∀ {w v : List Char} {P : Char → Prop}, w ≠ [] → (∀ x ∈ w, P x) →
      ∀ x ∈ (w ++ v).head?, P x := by
    intro w v P hne hall x hx
    obtain ⟨y, w, rfl⟩ := List.exists_cons_of_ne_nil hne
    obtain rfl := Option.some.inj hx
    exact hall _ List.mem_cons_self
  obtain ⟨hmonths, h⟩ := List.append_inj h.symm (hmonth.trans (monthName_spec c.date.month).1.symm)
  -- blanks end where digits begin, and the other way round
  obtain ⟨-, h⟩ := append_inj_of_class (p := isWhitespace) (q := u.decimalNumber) hblank.2
    (hhead hday.1 hday.2) (fun x hx => by rw [hspaces x hx, hspace])
    (hhead Nat.toDigits_ne_nil fun x hx => isWhitespace_of_isDigit (hdigits x hx)) h
  obtain ⟨hdays, h⟩ := append_inj_of_class (p := u.decimalNumber) (q := isWhitespace) hday.2
    (hhead hblank'.1 hblank'.2) (fun x hx => isWhitespace_of_isDigit (hdigits x hx))
    (hhead (List.cons_ne_nil ' ' []) (by simpa using hspace)) h
  obtain ⟨x, clock, hclock, hx⟩ := isDigit_head_clock c
  obtain ⟨y, hour, hhour, hdecimal⟩ := htime.head
  obtain ⟨-, h⟩ := append_inj_of_class (p := isWhitespace) (q := u.decimalNumber) hblank'.2
    (by rw [hhour]; simpa using hdecimal) (by simpa using hspace)
    (by rw [hclock]; simpa using isWhitespace_of_isDigit hx) h
  obtain ⟨htimes, -⟩ := List.append_inj h (htime.length.trans (isClock_clock u c).length.symm)
  exact ⟨hmonths, hdays, htimes⟩

end Stamp

/-! ## What is read of a line -/

section Line

variable {c : CivilTime}

/-- A month begins with a letter. -/
theorem monthName_head (u : Unicode) (c : CivilTime) : ∃ x name,
    (monthName c.date.month).toList = x :: name ∧ isWhitespace x = false ∧
      u.decimalNumber x = false := by
  obtain ⟨hlength, hletters⟩ := monthName_spec c.date.month
  obtain ⟨x, name, hname⟩ := List.exists_cons_of_length_pos
    (l := (monthName c.date.month).toList) (by omega)
  obtain ⟨hlow, hhigh, -⟩ := hletters x (hname ▸ List.mem_cons_self)
  refine ⟨x, name, hname, isWhitespace_of_graphic (by omega) hhigh, ?_⟩
  rw [u.decimalNumber_ascii x (by omega), ← Bool.not_eq_true]
  intro hdigit
  have hbounds := bounds_of_isDigit hdigit
  omega

/-- The line without the blanks at its end. -/
theorem trim_syslogLine (c : CivilTime) (tail : SyslogTail) : ∃ message, '\n' ∉ message ∧
    trim (syslogLine c tail) = stamp c ++ (' ' :: (tail.host ++ ' ' :: (tail.tag ++ ':' :: ' ' ::
      message))) := by
  obtain ⟨x, name, hname, hx, -⟩ := monthName_head .ascii c
  obtain ⟨message, blank, hsplit, -, htrim⟩ := trimList_append (name ++ ' ' :: (padded ' ' 2
    c.date.day ++ ' ' :: (c.clock ++ ' ' :: (tail.host ++ ' ' :: (tail.tag ++ [':', ' ']))))) hx
    tail.message_text
  refine ⟨message, fun hmem => tail.message_line ?_, ?_⟩
  · rw [hsplit]
    exact List.mem_append_left _ hmem
  · rw [trim, syslogLine, String.toList_ofList]
    simpa [stamp, hname, SyslogTail.text] using htrim

/-- A line that begins with the name of a month is none with a timestamp in numbers. -/
theorem isoSyslogRe_captures_stamp (u : Unicode) (c : CivilTime) (rest : List Char) :
    (isoSyslogRe u).captures (stamp c ++ rest) = none := by
  rw [captures_eq_none_iff]
  rintro front groups hmatch
  unfold isoSyslogRe at hmatch
  simp only [List.cons_append, List.nil_append] at hmatch
  obtain ⟨rfl, w, back, htext, htakes⟩ := matchesAt_bos_iff.mp hmatch
  obtain ⟨year, rest', _, _, ⟨inner, hyear, -⟩, -, rfl, -⟩ := takes_concat_cons.mp htakes
  unfold digit at hyear
  obtain ⟨digits, _, ⟨hlength, hdigits⟩, rfl, -⟩ := takes_times.mp hyear
  obtain ⟨y, digits, rfl⟩ := List.exists_cons_of_length_pos (l := digits) (by omega)
  obtain ⟨x, name, hname, -, hx⟩ := monthName_head u c
  -- the first character would be a digit
  have hhead : x = y := by
    simp only [stamp, hname, List.cons_append, List.nil_append] at htext
    exact (List.cons.inj htext).1
  rw [hhead, hdigits y List.mem_cons_self] at hx
  cases hx

/-- A timestamp with a host, a tag and a message behind it is matched. -/
theorem exists_matchesAt_stamp (u : Unicode) (c : CivilTime) {host tag message : List Char}
    (hhost : Token host) (htag : Token tag) (hmessage : '\n' ∉ message) :
    ∃ groups, MatchesAt (syslogTimestampRe u)
      (stamp c ++ (' ' :: (host ++ ' ' :: (tag ++ ':' :: ' ' :: message)))) [] groups := by
  obtain ⟨blank, hne, hblank, hstamp⟩ := stamp_append c
    (' ' :: (host ++ ' ' :: (tag ++ ':' :: ' ' :: message)))
  obtain ⟨hlength, hletters⟩ := monthName_spec c.date.month
  obtain ⟨groups, htail⟩ := takes_tail_text (u := u) hhost htag hmessage
  have hday : c.date.day < 100 := by
    have hle := c.date.day_le
    have hmonth := daysInMonth_le (isLeap c.date.year) c.date.month
    omega
  refine ⟨_, matchesAt_syslogTimestampRe_iff.mpr ⟨rfl, _, blank, _, [' '], c.clock, _, [], groups,
    ⟨hlength, fun x hx => ?_⟩, ⟨hne, fun x hx => ?_⟩,
    ⟨Nat.toDigits_ne_nil, length_toDigits_le hday, fun x hx => ?_⟩, blank_space,
    isClock_clock u c, ?_, htail, rfl⟩⟩
  · obtain ⟨-, hhigh, halpha⟩ := hletters x hx
    rw [u.word_ascii x (by omega), Char.isAlphanum, halpha]
    rfl
  · rw [hblank x hx]
    decide
  · exact decimalNumber_of_isDigit u (isDigit_of_mem_toDigits hx)
  · rw [hstamp, List.append_nil]

/-- **The timestamp of a line is found** as it was written. -/
theorem syslogTimestampRe_captures_stamp (u : Unicode) (c : CivilTime)
    {host tag message : List Char} (hhost : Token host) (htag : Token tag)
    (hmessage : '\n' ∉ message) : ∃ more,
    (syslogTimestampRe u).captures
        (stamp c ++ (' ' :: (host ++ ' ' :: (tag ++ ':' :: ' ' :: message))))
      = some (more ++ stampGroups (monthName c.date.month).toList (Nat.toDigits 10 c.date.day)
        c.clock) ∧
    ∀ entry ∈ more, entry.1 ∉ timeGroups := by
  cases hcaptures : (syslogTimestampRe u).captures
      (stamp c ++ (' ' :: (host ++ ' ' :: (tag ++ ':' :: ' ' :: message)))) with
  | none =>
    obtain ⟨groups, hgroups⟩ := exists_matchesAt_stamp u c hhost htag hmessage
    exact absurd hgroups (captures_eq_none_iff.mp hcaptures [] groups)
  | some groups =>
    obtain ⟨front, hfound, -⟩ := matchesAt_of_captures hcaptures
    obtain ⟨-, month, blank, day, blank', time, rest, back, more, ⟨hmonth, -⟩, hblank, hday,
      hblank', htime, hsplit, htail, rfl⟩ := matchesAt_syslogTimestampRe_iff.mp hfound
    obtain ⟨rfl, rfl, rfl⟩ := stamp_parts hmonth hblank ⟨hday.1, hday.2.2⟩ hblank' htime hsplit
    exact ⟨more, rfl, (takes_tail htail).2⟩

/-- The text that the date library is given for a line: the parts of its timestamp around a year. -/
def dateText (c : CivilTime) (year : ℤ) : String :=
  monthName c.date.month ++ " " ++ toString c.date.day ++ " " ++ toString year ++ " "
    ++ String.ofList c.clock

/-- **A line is read** as what the date library reads of its timestamp with the year of the
clock. -/
theorem authParse_syslogLine_iff {crates : Externals} {now t : DateTime} {tail : SyslogTail} :
    (∃ entry, authParse crates now (syslogLine c tail) = .ok (some entry) ∧ entry.timestamp = t) ↔
      crates.chrono.naiveParseFromStr (dateText c (crates.chrono.year now)) "%b %d %Y %H:%M:%S"
        = some t := by
  obtain ⟨message, hmessage, htrim⟩ := trim_syslogLine c tail
  obtain ⟨more, hcaptures, hmore⟩ := syslogTimestampRe_captures_stamp crates.unicode c
    tail.host_token tail.tag_token hmessage
  obtain ⟨x, name, hname, -⟩ := monthName_head crates.unicode c
  have hne : ∀ rest, stamp c ++ rest ≠ [] := fun rest => by simp [stamp, hname]
  unfold authParse authParseTrimmed
  rw [htrim, if_neg (hne _), isoSyslogRe_captures_stamp, hcaptures]
  have hgroup : ∀ group ∈ timeGroups, ∀ groups : Captures SyslogGroup,
      Captures.nameUnwrap (more ++ groups) group = groups.nameUnwrap group := by
    intro group hmem groups
    exact Captures.nameUnwrap_append fun entry hentry heq => hmore entry hentry (heq ▸ hmem)
  have htext : parseSyslogTimestamp crates now (String.ofList (monthName c.date.month).toList)
        (String.ofList (Nat.toDigits 10 c.date.day)) (String.ofList c.clock)
      = fieldOr (crates.chrono.naiveParseFromStr (dateText c (crates.chrono.year now))
        "%b %d %Y %H:%M:%S") "timestamp" (dateText c (crates.chrono.year now)) := by
    have hday : String.ofList (Nat.toDigits 10 c.date.day) = toString c.date.day := by
      rw [← String.toList_inj, String.toList_ofList, Nat.toString_eq_repr, Nat.toList_repr]
    rw [String.ofList_toList, hday]
    unfold parseSyslogTimestamp dateText
    rfl
  dsimp only
  rw [hgroup .month (by decide), hgroup .day (by decide), hgroup .time (by decide),
    nameUnwrap_month, nameUnwrap_day, nameUnwrap_time, htext]
  cases crates.chrono.naiveParseFromStr (dateText c (crates.chrono.year now)) "%b %d %Y %H:%M:%S"
    with
  | none =>
    constructor
    · rintro ⟨entry, hentry, -⟩
      cases hentry
    · intro h
      cases h
  | some timestamp =>
    constructor
    · rintro ⟨entry, hentry, rfl⟩
      obtain rfl := Option.some.inj (Except.ok.inj hentry)
      rfl
    · intro h
      exact ⟨_, rfl, Option.some.inj h⟩

end Line

/-! ## The instant of a line -/

/-- The year of the calendar that an instant falls into. -/
def yearOf (t : DateTime) : ℤ := (CivilTime.ofSeconds (t.nanos / 1000000000)).date.year

/-- What `%b %d %Y %H:%M:%S` denotes, of the parts of a civil time and a year: the instant in UTC,
if there is such a date.  A year beyond 9999 needs a sign. -/
def naiveReading (c : CivilTime) (year : ℤ) : Option DateTime :=
  if year ≤ 9999 then (c.inYear year).bind CivilTime.toUtc else none

variable {crates : Externals}

/-- **The instant of a line is reconstructed** exactly when the host is on UTC and the line is read
in the year in which it was written. -/
theorem authParse_syslogLine_eq_iff {t now : DateTime} {second z : ℤ}
    (ht : t.nanos = second * 1000000000) (hz : -86400 < z ∧ z < 86400)
    (hyear : crates.chrono.year now = yearOf now)
    (hread : crates.chrono.naiveParseFromStr
        (dateText (CivilTime.ofSeconds (second + z)) (yearOf now)) "%b %d %Y %H:%M:%S"
      = naiveReading (CivilTime.ofSeconds (second + z)) (yearOf now))
    (tail : SyslogTail) :
    (∃ entry, authParse crates now (syslogLine (CivilTime.ofSeconds (second + z)) tail)
        = .ok (some entry) ∧ entry.timestamp = t) ↔
      z = 0 ∧ yearOf now = yearOf t ∧ yearOf now ≤ 9999 := by
  have hsecond : t.nanos / 1000000000 = second := by omega
  have hyearOf : yearOf t = (CivilTime.ofSeconds second).date.year := by rw [yearOf, hsecond]
  rw [authParse_syslogLine_iff, hyear, hread, hyearOf, naiveReading]
  split
  · next hle =>
    rw [Option.bind_eq_some_iff]
    constructor
    · rintro ⟨c, hc, hutc⟩
      have hseconds : c.seconds = (CivilTime.ofSeconds (second + z)).seconds - z := by
        rw [CivilTime.seconds_ofSeconds]
        have hnanos := CivilTime.toUtc_eq_some_iff.mp hutc
        omega
      obtain ⟨hsame, rfl⟩ := (CivilTime.seconds_inYear_iff hz hc).mp hseconds
      rw [add_zero] at hsame
      exact ⟨rfl, hsame, hle⟩
    · rintro ⟨rfl, hsame, -⟩
      rw [add_zero, hsame]
      refine ⟨_, CivilTime.inYear_self _, CivilTime.toUtc_eq_some_iff.mpr ?_⟩
      rw [CivilTime.seconds_ofSeconds, ht]
  · next hlate =>
    refine iff_of_false (fun h => by cases h) fun h => hlate h.2.2

/-- The end of a connection. -/
def sshdTail : SyslogTail where
  host := "gate".toList
  tag := "sshd[7]".toList
  message := "Connection closed".toList
  host_token := token_of_all (by decide) (by decide)
  tag_token := token_of_all (by decide) (by decide)
  message_line := by decide
  message_text := ⟨'C', by decide, by decide⟩

/-- The second before the year. -/
def newYearsEve : DateTime := ⟨1735689599000000000, by decide, by decide⟩

/-- The date library, as far as lines around the new year need it. -/
def newYearClock : Externals where
  unicode := newYearCrates.unicode
  chrono := {
    parseFromStr := newYearCrates.chrono.parseFromStr
    parseFromRfc3339 := newYearCrates.chrono.parseFromRfc3339
    naiveParseFromStr := fun s _ =>
      if s = "Jan 1 2025 00:00:00" then some newYear
      else if s = "Dec 31 2025 23:59:59" then
        some ⟨1767225599000000000, by decide, by decide⟩
      else none
    year := fun _ => 2025 }
  displayPath := newYearCrates.displayPath

theorem authParse_syslogLine_newYear : ∃ entry,
    authParse newYearClock newYear (syslogLine (CivilTime.ofSeconds (1735689600 + 0)) sshdTail)
      = .ok (some entry) ∧ entry.timestamp = newYear :=
  (authParse_syslogLine_eq_iff (by decide) (by decide) (by decide +kernel) (by decide +kernel)
    sshdTail).mpr (by decide +kernel)

/-- A line of the old year that is read a second later has an instant of the new year. -/
theorem authParse_syslogLine_newYearsEve : newYearsEve.nanos ≤ newYear.nanos ∧
    newYear.nanos < newYearsEve.nanos + 365 * 86400 * 1000000000 ∧
    ¬ ∃ entry, authParse newYearClock newYear
        (syslogLine (CivilTime.ofSeconds (1735689599 + 0)) sshdTail) = .ok (some entry) ∧
      entry.timestamp = newYearsEve := by
  refine ⟨by decide, by decide, ?_⟩
  rw [authParse_syslogLine_iff]
  decide +kernel

end Sentinalysis.LogScanner
