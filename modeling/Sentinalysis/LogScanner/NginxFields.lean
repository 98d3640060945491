/-
# Sentinalysis.LogScanner.NginxFields — the fields of an access-log line.

A line of the combined format is its fields with the delimiters of the format between them.  The
expression of the parser takes a line exactly when it is written with fields of the right classes.
Where no field holds the delimiter behind it, a line is written with one set of fields only.
-/
import Sentinalysis.Lib.RegexTakes
import Sentinalysis.Error
import Sentinalysis.LogScanner.Parser

namespace Sentinalysis.LogScanner

open Lib Regex

/-- The texts of a line: the host and the request time are left out together. -/
structure NginxFields where
  remoteAddr : List Char
  ident : List Char
  remoteUser : List Char
  timeLocal : List Char
  request : List Char
  status : List Char
  bodyBytesSent : List Char
  httpReferer : List Char
  httpUserAgent : List Char
  vhost : Option (List Char × List Char)
  deriving DecidableEq, Repr

namespace NginxFields

/-- The end of the line, if there is a host and a request time. -/
def vhostText : Option (List Char × List Char) → List Char
  | none => []
  | some (host, requestTime) => ' ' :: '"' :: (host ++ '"' :: ' ' :: requestTime)

/-- The line that the fields make up. -/
def text (f : NginxFields) : List Char :=
  f.remoteAddr ++ ' ' :: (f.ident ++ ' ' :: (f.remoteUser ++ ' ' :: '[' :: (f.timeLocal ++ ']' ::
    ' ' :: '"' :: (f.request ++ '"' :: ' ' :: (f.status ++ ' ' :: (f.bodyBytesSent ++ ' ' :: '"' ::
    (f.httpReferer ++ '"' :: ' ' :: '"' :: (f.httpUserAgent ++ '"' :: vhostText f.vhost))))))))

/-- The groups of the end of the line. -/
def vhostGroups : Option (List Char × List Char) → Captures NginxGroup
  | none => []
  | some (host, requestTime) => [(.requestTime, requestTime), (.host, host)]

/-- The groups that hold the fields. -/
def groups (f : NginxFields) : Captures NginxGroup :=
  vhostGroups f.vhost ++ [(.httpUserAgent, f.httpUserAgent), (.httpReferer, f.httpReferer),
    (.bodyBytesSent, f.bodyBytesSent), (.status, f.status), (.request, f.request),
    (.timeLocal, f.timeLocal), (.remoteAddr, f.remoteAddr)]

/-- A line begins with the address and ends with the quote of the user agent and what is behind. -/
theorem exists_text_eq (f : NginxFields) :
    ∃ middle, f.text = f.remoteAddr ++ (middle ++ '"' :: vhostText f.vhost) := by
  refine ⟨' ' :: (f.ident ++ ' ' :: (f.remoteUser ++ ' ' :: '[' :: (f.timeLocal ++ ']' :: ' ' ::
    '"' :: (f.request ++ '"' :: ' ' :: (f.status ++ ' ' :: (f.bodyBytesSent ++ ' ' :: '"' ::
    (f.httpReferer ++ '"' :: ' ' :: '"' :: f.httpUserAgent))))))), ?_⟩
  simp only [text, List.append_assoc, List.cons_append]

/-- What the classes of the expression say of the fields. -/
structure Valid (u : Unicode) (f : NginxFields) : Prop where
  remoteAddr : Token f.remoteAddr
  ident : Token f.ident
  remoteUser : Token f.remoteUser
  timeLocal : f.timeLocal ≠ [] ∧ ']' ∉ f.timeLocal
  request : '"' ∉ f.request
  status : f.status.length = 3 ∧ ∀ x ∈ f.status, u.decimalNumber x = true
  bodyBytesSent : f.bodyBytesSent ≠ [] ∧ ∀ x ∈ f.bodyBytesSent, u.decimalNumber x = true
  httpReferer : '"' ∉ f.httpReferer
  httpUserAgent : '"' ∉ f.httpUserAgent
  vhost : ∀ host requestTime, f.vhost = some (host, requestTime) → '"' ∉ host ∧
    requestTime ≠ [] ∧ ∀ x ∈ requestTime, (u.decimalNumber x || x == '.') = true

variable {u : Unicode}

/-- A class that leaves out one character. -/
theorem forall_bne_iff {x : Char} {w : List Char} : (∀ y ∈ w, (y != x) = true) ↔ x ∉ w := by
  simp only [bne_iff_ne]
  constructor
  · intro h hmem
    exact h x hmem rfl
  · rintro h y hy rfl
    exact h hy

/-- What the expression takes behind the user agent. -/
theorem takes_vhost_iff {before w back : List Char} {groups : Captures NginxGroup} :
    Takes (concat [opt (concat [lit " \"", cap .host (many (cls (· != '"'))), lit "\" ",
      cap .requestTime (many1 (cls fun c => u.decimalNumber c || c == '.'))]), eos]) before w back
      groups ↔ back = [] ∧ ∃ vhost, (∀ host requestTime, vhost = some (host, requestTime) →
        '"' ∉ host ∧ requestTime ≠ [] ∧ ∀ x ∈ requestTime, (u.decimalNumber x || x == '.') = true) ∧
        w = vhostText vhost ∧ groups = vhostGroups vhost := by
  simp only [takes_opt, takes_concat_concat, List.cons_append, List.nil_append, takes_lit,
    takes_cap_many, takes_cap_many1, takes_eos, forall_bne_iff]
  constructor
  · rintro (⟨_, rfl, host, _, _, hhost, rfl, rfl, _, rfl, requestTime, _, _, htime, rfl, rfl, rfl,
      rfl, rfl⟩ | ⟨rfl, rfl, rfl⟩)
    · refine ⟨rfl, some (host, requestTime), ?_, by simp [vhostText], rfl⟩
      rintro _ _ ⟨⟩
      exact ⟨hhost, htime⟩
    · exact ⟨rfl, none, fun _ _ h => (by cases h), rfl, rfl⟩
  · rintro ⟨rfl, vhost, hvhost, rfl, rfl⟩
    cases vhost with
    | none => exact Or.inr ⟨rfl, rfl, rfl⟩
    | some vhost =>
      obtain ⟨host, requestTime⟩ := vhost
      obtain ⟨hhost, htime⟩ := hvhost host requestTime rfl
      exact Or.inl ⟨_, rfl, host, _, _, hhost, rfl, rfl, _, rfl, requestTime, [], [], htime,
        (List.append_nil requestTime).symm, rfl, rfl, rfl, rfl⟩

/-- What the expression takes from the referer on. -/
theorem takes_referer_iff {before w back : List Char} {groups : Captures NginxGroup} :
    Takes (concat [cap .httpReferer (many (cls (· != '"'))), lit "\" \"",
      cap .httpUserAgent (many (cls (· != '"'))), lit "\"",
      opt (concat [lit " \"", cap .host (many (cls (· != '"'))), lit "\" ",
        cap .requestTime (many1 (cls fun c => u.decimalNumber c || c == '.'))]), eos]) before w back
      groups ↔ back = [] ∧ ∃ referer agent vhost, '"' ∉ referer ∧ '"' ∉ agent ∧
        (∀ host requestTime, vhost = some (host, requestTime) → '"' ∉ host ∧ requestTime ≠ [] ∧
          ∀ x ∈ requestTime, (u.decimalNumber x || x == '.') = true) ∧
        w = referer ++ '"' :: ' ' :: '"' :: (agent ++ '"' :: vhostText vhost) ∧
        groups = vhostGroups vhost ++ [(.httpUserAgent, agent), (.httpReferer, referer)] := by
  simp only [takes_lit, takes_cap_many, takes_vhost_iff, forall_bne_iff]
  constructor
  · rintro ⟨referer, _, _, hreferer, rfl, rfl, _, rfl, agent, _, _, hagent, rfl, rfl, _, rfl, rfl,
      vhost, hvhost, rfl, rfl⟩
    exact ⟨rfl, referer, agent, vhost, hreferer, hagent, hvhost, by simp, by simp⟩
  · rintro ⟨rfl, referer, agent, vhost, hreferer, hagent, hvhost, rfl, rfl⟩
    exact ⟨referer, _, _, hreferer, rfl, by simp, _, rfl, agent, _, _, hagent, rfl, rfl, _, rfl, rfl,
      vhost, hvhost, rfl, rfl⟩

/-- What the expression takes from the request on. -/
theorem takes_request_iff {before w back : List Char} {groups : Captures NginxGroup} :
    Takes (concat [cap .request (many (cls (· != '"'))), lit "\" ",
      cap .status (times 3 (cls u.decimalNumber)), lit " ",
      cap .bodyBytesSent (many1 (cls u.decimalNumber)), lit " \"",
      cap .httpReferer (many (cls (· != '"'))), lit "\" \"",
      cap .httpUserAgent (many (cls (· != '"'))), lit "\"",
      opt (concat [lit " \"", cap .host (many (cls (· != '"'))), lit "\" ",
        cap .requestTime (many1 (cls fun c => u.decimalNumber c || c == '.'))]), eos]) before w back
      groups ↔ back = [] ∧ ∃ request status bytes referer agent vhost, '"' ∉ request ∧
        (status.length = 3 ∧ ∀ x ∈ status, u.decimalNumber x = true) ∧
        (bytes ≠ [] ∧ ∀ x ∈ bytes, u.decimalNumber x = true) ∧ '"' ∉ referer ∧ '"' ∉ agent ∧
        (∀ host requestTime, vhost = some (host, requestTime) → '"' ∉ host ∧ requestTime ≠ [] ∧
          ∀ x ∈ requestTime, (u.decimalNumber x || x == '.') = true) ∧
        w = request ++ '"' :: ' ' :: (status ++ ' ' :: (bytes ++ ' ' :: '"' :: (referer ++ '"' ::
          ' ' :: '"' :: (agent ++ '"' :: vhostText vhost)))) ∧
        groups = vhostGroups vhost ++ [(.httpUserAgent, agent), (.httpReferer, referer),
          (.bodyBytesSent, bytes), (.status, status), (.request, request)] := by
  simp only [takes_lit, takes_cap_many, takes_cap_many1, takes_cap_times, ↓takes_referer_iff,
    forall_bne_iff]
  constructor
  · rintro ⟨request, _, _, hrequest, rfl, rfl, _, rfl, status, _, _, hstatus, rfl, rfl, _, rfl, bytes,
      _, _, hbytes, rfl, rfl, _, rfl, rfl, referer, agent, vhost, hreferer, hagent, hvhost, rfl, rfl⟩
    exact ⟨rfl, request, status, bytes, referer, agent, vhost, hrequest, hstatus, hbytes, hreferer,
      hagent, hvhost, by simp, by simp⟩
  · rintro ⟨rfl, request, status, bytes, referer, agent, vhost, hrequest, hstatus, hbytes, hreferer,
      hagent, hvhost, rfl, rfl⟩
    exact ⟨request, _, _, hrequest, rfl, by simp, _, rfl, status, _, _, hstatus, rfl, rfl, _, rfl,
      bytes, _, _, hbytes, rfl, rfl, _, rfl, rfl, referer, agent, vhost, hreferer, hagent, hvhost,
      rfl, rfl⟩

/-- **What the expression matches**: a line of valid fields, in the groups of their names. -/
theorem matchesAt_nginxCombinedRe_iff {text front : List Char} {groups : Captures NginxGroup} :
    MatchesAt (nginxCombinedRe u) text front groups ↔
      front = [] ∧ ∃ f : NginxFields, f.Valid u ∧ text = f.text ∧ groups = f.groups := by
  unfold nginxCombinedRe nonSpace digit except
  rw [matchesAt_bos_iff]
  refine and_congr_right fun _ => ?_
  unfold MatchesAt
  simp only [takes_lit, takes_many1, takes_cap_many1, takes_request_iff, forall_bne_iff,
    List.reverse_nil, List.nil_append, Bool.not_eq_true']
  constructor
  · rintro ⟨_, back, rfl, addr, _, _, haddr, rfl, rfl, _, rfl, ident, _, hident, rfl, _, rfl, user, _,
      huser, rfl, _, rfl, time, _, _, htime, rfl, rfl, _, rfl, rfl, request, status, bytes, referer,
      agent, vhost, hrequest, hstatus, hbytes, hreferer, hagent, hvhost, rfl, rfl⟩
    refine ⟨⟨addr, ident, user, time, request, status, bytes, referer, agent, vhost⟩,
      ⟨haddr, hident, huser, htime, hrequest, hstatus, hbytes, hreferer, hagent, hvhost⟩, ?_, ?_⟩
    · simp [NginxFields.text]
    · simp [NginxFields.groups]
  · rintro ⟨f, hf, rfl, rfl⟩
    refine ⟨f.text, [], (List.append_nil f.text).symm, f.remoteAddr, _, _, hf.remoteAddr, rfl, ?_, _,
      rfl, f.ident, _, hf.ident, rfl, _, rfl, f.remoteUser, _, hf.remoteUser, rfl, _, rfl,
      f.timeLocal, _, _, hf.timeLocal, rfl, rfl, _, rfl, rfl, f.request, f.status, f.bodyBytesSent,
      f.httpReferer, f.httpUserAgent, f.vhost, hf.request, hf.status, hf.bodyBytesSent,
      hf.httpReferer, hf.httpUserAgent, hf.vhost, rfl, rfl⟩
    simp [groups]

/-! ## Lines and their fields -/

/-- No field of the line holds the delimiter behind it. -/
structure Delimited (f : NginxFields) : Prop where
  remoteAddr : ' ' ∉ f.remoteAddr
  ident : ' ' ∉ f.ident
  remoteUser : ' ' ∉ f.remoteUser
  timeLocal : ']' ∉ f.timeLocal
  request : '"' ∉ f.request
  status : ' ' ∉ f.status
  bodyBytesSent : ' ' ∉ f.bodyBytesSent
  httpReferer : '"' ∉ f.httpReferer
  httpUserAgent : '"' ∉ f.httpUserAgent
  vhost : ∀ host requestTime, f.vhost = some (host, requestTime) → '"' ∉ host

/-- A space is no number. -/
theorem space_not_mem_of_decimalNumber {w : List Char} (h : ∀ x ∈ w, u.decimalNumber x = true) :
    ' ' ∉ w :=
  not_mem_of_class h (u.decimalNumber_ascii ' ' (by decide))

theorem Valid.delimited {f : NginxFields} (h : f.Valid u) : f.Delimited where
  remoteAddr := h.remoteAddr.space
  ident := h.ident.space
  remoteUser := h.remoteUser.space
  timeLocal := h.timeLocal.2
  request := h.request
  status := space_not_mem_of_decimalNumber h.status.2
  bodyBytesSent := space_not_mem_of_decimalNumber h.bodyBytesSent.2
  httpReferer := h.httpReferer
  httpUserAgent := h.httpUserAgent
  vhost host requestTime hvhost := (h.vhost host requestTime hvhost).1

theorem vhostText_injective {v v' : Option (List Char × List Char)}
    (hv : ∀ host requestTime, v = some (host, requestTime) → '"' ∉ host)
    (hv' : ∀ host requestTime, v' = some (host, requestTime) → '"' ∉ host)
    (h : vhostText v = vhostText v') : v = v' := by
  cases v with
  | none =>
    cases v' with
    | none => rfl
    | some v' => cases h
  | some v =>
    cases v' with
    | none => cases h
    | some v' =>
      obtain ⟨hhost, hrest⟩ := (append_cons_inj (hv v.1 v.2 rfl) (hv' v'.1 v'.2 rfl)).mp
        (List.cons.inj (List.cons.inj h).2).2
      exact congrArg some (Prod.ext hhost (List.cons.inj hrest).2)

/-- **A line is written with one set of fields** whose delimiters are none of their characters. -/
theorem text_injective {f g : NginxFields} (hf : f.Delimited) (hg : g.Delimited)
    (h : f.text = g.text) : f = g := by
  obtain ⟨haddr, h⟩ := (append_cons_inj hf.remoteAddr hg.remoteAddr).mp h
  obtain ⟨hident, h⟩ := (append_cons_inj hf.ident hg.ident).mp h
  obtain ⟨huser, h⟩ := (append_cons_inj hf.remoteUser hg.remoteUser).mp h
  obtain ⟨htime, h⟩ := (append_cons_inj hf.timeLocal hg.timeLocal).mp (List.cons.inj h).2
  obtain ⟨hrequest, h⟩ := (append_cons_inj hf.request hg.request).mp
    (List.cons.inj (List.cons.inj h).2).2
  obtain ⟨hstatus, h⟩ := (append_cons_inj hf.status hg.status).mp (List.cons.inj h).2
  obtain ⟨hbytes, h⟩ := (append_cons_inj hf.bodyBytesSent hg.bodyBytesSent).mp h
  obtain ⟨hreferer, h⟩ := (append_cons_inj hf.httpReferer hg.httpReferer).mp (List.cons.inj h).2
  obtain ⟨hagent, h⟩ := (append_cons_inj hf.httpUserAgent hg.httpUserAgent).mp
    (List.cons.inj (List.cons.inj h).2).2
  have hvhost := vhostText_injective hf.vhost hg.vhost h
  cases f
  cases g
  simp_all

/-- Valid fields are found in the line that they make up. -/
theorem captures_text {f : NginxFields} (hf : f.Valid u) :
    (nginxCombinedRe u).captures f.text = some f.groups := by
  refine captures_eq_some (matchesAt_nginxCombinedRe_iff.mpr ⟨rfl, f, hf, rfl, rfl⟩) ?_
  intro front groups hmatch
  obtain ⟨-, g, hg, htext, rfl⟩ := matchesAt_nginxCombinedRe_iff.mp hmatch
  rw [text_injective hf.delimited hg.delimited htext]

/-- A user with a space moves what is read as the time: if the line is taken at all, it begins within
the user and goes on to the time, with the bracket between them. -/
theorem bracket_mem_time {user user' time time' rest rest' : List Char} (huser' : ' ' ∉ user')
    (hspace : ' ' ∈ user) (hquote : '"' ∉ user) (htime' : ']' ∉ time') (htime : ']' ∉ time)
    (h : user' ++ ' ' :: '[' :: (time' ++ ']' :: ' ' :: '"' :: rest')
      = user ++ ' ' :: '[' :: (time ++ ']' :: rest)) : '[' ∈ time' := by
  rcases append_cons_cases huser' h with ⟨rfl, -⟩ | ⟨w, rfl, h₁⟩
  · exact absurd hspace huser'
  -- behind the first space of the user must be a bracket
  rcases List.cons_eq_append_iff.mp h₁ with ⟨-, h₂⟩ | ⟨w, rfl, h₂⟩
  · cases (List.cons.inj h₂).1
  by_cases hclose : ']' ∈ w
  · -- then the time ends within the user, and a quote would have to follow
    obtain ⟨front, back, rfl, hfront⟩ := List.eq_append_cons_of_mem hclose
    rw [List.append_assoc, List.cons_append] at h₂
    obtain ⟨-, h₃⟩ := (append_cons_inj htime' hfront).mp h₂
    rcases List.cons_eq_append_iff.mp h₃ with ⟨-, h₄⟩ | ⟨back, rfl, h₄⟩
    · cases (List.cons.inj (List.cons.inj h₄).2).1
    · rcases List.cons_eq_append_iff.mp h₄ with ⟨-, h₅⟩ | ⟨back, rfl, -⟩
      · cases (List.cons.inj h₅).1
      · simp at hquote
  · have hopen : ']' ∉ w ++ ' ' :: '[' :: time := by simp [hclose, htime]
    have hsame : w ++ ' ' :: '[' :: (time ++ ']' :: rest)
        = (w ++ ' ' :: '[' :: time) ++ ']' :: rest := by simp
    rw [hsame] at h₂
    rw [((append_cons_inj htime' hopen).mp h₂).1]
    simp

theorem bracket_mem_timeLocal {f g : NginxFields} (hg : g.Delimited) (hspace : ' ' ∈ f.remoteUser)
    (hquote : '"' ∉ f.remoteUser) (haddr : ' ' ∉ f.remoteAddr) (hident : ' ' ∉ f.ident)
    (htime : ']' ∉ f.timeLocal) (h : g.text = f.text) : '[' ∈ g.timeLocal := by
  obtain ⟨-, haddrs⟩ := (append_cons_inj hg.remoteAddr haddr).mp h
  obtain ⟨-, hidents⟩ := (append_cons_inj hg.ident hident).mp haddrs
  exact bracket_mem_time hg.remoteUser hspace hquote hg.timeLocal htime hidents

/-! ## What the parser makes of the fields -/

/-- The field that a group is for. -/
def field (f : NginxFields) : NginxGroup → List Char
  | .remoteAddr => f.remoteAddr
  | .timeLocal => f.timeLocal
  | .request => f.request
  | .status => f.status
  | .bodyBytesSent => f.bodyBytesSent
  | .httpReferer => f.httpReferer
  | .httpUserAgent => f.httpUserAgent
  | .host => (f.vhost.map Prod.fst).getD []
  | .requestTime => (f.vhost.map Prod.snd).getD []

theorem nameUnwrap_groups (f : NginxFields) (name : NginxGroup) :
    f.groups.nameUnwrap name = String.ofList (f.field name) := by
  obtain ⟨addr, ident, user, time, request, status, bytes, referer, agent, vhost⟩ := f
  cases vhost <;> cases name <;> rfl

theorem name_host (f : NginxFields) :
    f.groups.name .host = f.vhost.map fun vhost => String.ofList vhost.1 := by
  obtain ⟨addr, ident, user, time, request, status, bytes, referer, agent, vhost⟩ := f
  cases vhost <;> rfl

/-- The first parts of a text are those of the split. -/
theorem take_splitn (x : Char) (n : ℕ) (l : List Char) :
    (Text.splitn x (n + 1) l).take n = ((l.splitOn x).map String.ofList).take n := by
  induction n generalizing l with
  | zero => rfl
  | succ n ih =>
    rw [Text.splitn]
    have hfront : x ∉ l.takeWhile (· != x) := fun hmem => by
      simpa using List.mem_takeWhile_imp hmem
    split
    · next hnone =>
      have hmissing : x ∉ l := by
        rw [← List.takeWhile_append_dropWhile (p := (· != x)) (l := l), hnone, List.append_nil]
        exact hfront
      rw [List.splitOn_eq_singleton hmissing]
      rfl
    · next y rest hrest =>
      have hsep : y = x := by
        have hhead := List.head_dropWhile_not (· != x) (l := l) (by rw [hrest]; simp)
        simpa [hrest] using hhead
      have hl : l = l.takeWhile (· != x) ++ x :: rest := by
        conv_lhs => rw [← List.takeWhile_append_dropWhile (p := (· != x)) (l := l), hrest, hsep]
      conv_rhs => rw [hl]
      rw [List.splitOn_append_cons_of_beq _ _ (beq_self_eq_true x), List.splitOn_eq_singleton hfront,
        List.singleton_append, List.map_cons, List.take_succ_cons, List.take_succ_cons, ih]

end NginxFields

section Parsed

variable {crates : Externals} {f : NginxFields}

/-- What an entry has from the fields of its line. -/
structure ReadFrom (f : NginxFields) (t : DateTime) (addr : IpAddr) (status bytes : ℕ)
    (entry : ParsedLogEntry) : Prop where
  timestamp : entry.timestamp = t
  clientIp : entry.metadata.clientIp = some addr
  statusCode : entry.metadata.statusCode = some (UInt16.ofNat status)
  bytesSent : entry.metadata.bytesSent = some (UInt64.ofNat bytes)
  referer : entry.metadata.referer = some (String.ofList f.httpReferer)
  userAgent : entry.metadata.userAgent = some (String.ofList f.httpUserAgent)
  virtualHost : entry.metadata.virtualHost
    = (f.vhost.map fun vhost => String.ofList vhost.1).filter (· ≠ "-")
  request : ∀ method path rest, f.request.splitOn ' ' = method :: path :: rest →
    entry.metadata.requestMethod = some (String.ofList method) ∧
      entry.metadata.requestPath = some (String.ofList path)

/-- A line whose fields can be read is read. -/
theorem nginxParseTrimmed_text {t : DateTime} {addr : IpAddr} {status bytes : ℕ}
    (hf : f.Valid crates.unicode) (haddr : IpAddr.parse (String.ofList f.remoteAddr) = some addr)
    (htime : crates.chrono.parseFromStr (String.ofList f.timeLocal) "%d/%b/%Y:%H:%M:%S %z" = some t)
    (hstatus : Text.parseUnsigned (2 ^ 16) (String.ofList f.status) = some status)
    (hbytes : Text.parseUnsigned (2 ^ 64) (String.ofList f.bodyBytesSent) = some bytes) :
    ∃ entry, nginxParseTrimmed crates f.text = .ok (some entry) ∧
      ReadFrom f t addr status bytes entry := by
  have hne : f.text ≠ [] := by simp [NginxFields.text]
  unfold nginxParseTrimmed parseNginxTimestamp
  rw [if_neg hne, NginxFields.captures_text hf]
  dsimp only [bind, Except.bind]
  simp only [NginxFields.nameUnwrap_groups, NginxFields.name_host, NginxFields.field, haddr, htime,
    hstatus, hbytes, fieldOr, String.toList_ofList]
  refine ⟨_, rfl, ⟨rfl, rfl, rfl, rfl, rfl, rfl, rfl, fun method path rest hsplit => ?_⟩⟩
  obtain ⟨more, hparts⟩ : ∃ more,
      Text.splitn ' ' 3 f.request = String.ofList method :: String.ofList path :: more := by
    have htake := NginxFields.take_splitn ' ' 2 f.request
    rw [hsplit, List.map_cons, List.map_cons, List.take_succ_cons, List.take_succ_cons,
      List.take_zero] at htake
    refine ⟨(Text.splitn ' ' 3 f.request).drop 2, ?_⟩
    conv_lhs => rw [← List.take_append_drop 2 (Text.splitn ' ' 3 f.request), htake]
    rfl
  dsimp only
  rw [hparts]
  exact ⟨rfl, rfl⟩

/-- An entry has its instant from the group of the time. -/
theorem timestamp_of_nginxParseTrimmed {text : List Char} {entry : ParsedLogEntry}
    (h : nginxParseTrimmed crates text = .ok (some entry)) : ∃ groups,
    (nginxCombinedRe crates.unicode).captures text = some groups ∧
      crates.chrono.parseFromStr (groups.nameUnwrap .timeLocal) "%d/%b/%Y:%H:%M:%S %z"
        = some entry.timestamp := by
  obtain ⟨groups, hcaptures, hentry⟩ := nginxParseTrimmed_fromGroups h
  have htime := hentry.timestamp
  refine ⟨groups, hcaptures, ?_⟩
  unfold parseNginxTimestamp fieldOr at htime
  split at htime
  · next t hread =>
    obtain rfl := Except.ok.inj htime
    exact hread
  · cases htime

end Parsed

end Sentinalysis.LogScanner
