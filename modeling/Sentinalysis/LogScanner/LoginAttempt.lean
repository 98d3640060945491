/-
# Sentinalysis.LogScanner.LoginAttempt — the peer of a failed login.

The server writes the name that the client gives before the address of the peer, and a name may have
spaces.  A name that holds a failed login of its own puts the address of its choice in the place of
the peer's; a name that is not one word hides the login.  What stands before the address decides
which of this happens.
-/
import Sentinalysis.Lib.RegexTakes
import Sentinalysis.LogScanner.Pipeline

namespace Sentinalysis.LogScanner

open Lib Regex

/-! ## The message of the server -/

/-- What the server writes before the address of the peer. -/
def namedUser (invalid : Bool) (user : String) : String :=
  "Failed password for " ++ (if invalid then "invalid user " else "") ++ user

/-- The message of a failed login. -/
def failedPassword (invalid : Bool) (user ip : String) (port : ℕ) : String :=
  namedUser invalid user ++ " from " ++ ip ++ " port " ++ toString port ++ " ssh2"

/-! ## Logins in a text -/

/-- Behind the front of a text a failed login begins, with a user who is one word. -/
def NameAt (text front user : List Char) : Prop :=
  Token user ∧ ∃ invalid ∈ ["", "invalid user "],
    text = front ++ ("Failed password for ".toList ++ (invalid.toList ++ user))

/-- Behind the front of a text is a failed login of a user from a peer, up to the first digit of the
port. -/
def LoginAt (u : Unicode) (text front user peer : List Char) : Prop :=
  ∃ begun digit back, NameAt begun front user ∧ Token peer ∧ u.decimalNumber digit = true ∧
    text = begun ++ (" from ".toList ++ (peer ++ (" port ".toList ++ digit :: back)))

section Expression

variable {u : Unicode} {text front : List Char}

/-- What the expression takes from the user on. -/
theorem takes_user_iff {before w back : List Char} {groups : Captures SshGroup} :
    Takes (concat [cap .user (many1 nonSpace), lit " from ", cap .ip (many1 nonSpace),
      lit " port ", many1 (digit u)]) before w back groups ↔
    ∃ user peer port, Token user ∧ Token peer ∧ (port ≠ [] ∧ ∀ x ∈ port, u.decimalNumber x = true) ∧
      w = user ++ (" from ".toList ++ (peer ++ (" port ".toList ++ port))) ∧
      groups = [(.ip, peer), (.user, user)] := by
  unfold digit nonSpace
  simp only [takes_cap_many1, takes_lit, takes_many1, takes_nil, Bool.not_eq_true']
  constructor
  · rintro ⟨user, _, _, huser, rfl, rfl, _, rfl, peer, _, _, hpeer, rfl, rfl, _, rfl, port, _,
      hport, rfl, rfl, rfl⟩
    exact ⟨user, peer, port, huser, hpeer, hport, by rw [List.append_nil], rfl⟩
  · rintro ⟨user, peer, port, huser, hpeer, hport, rfl, rfl⟩
    exact ⟨user, _, [(.ip, peer)], huser, rfl, rfl, _, rfl, peer, _, [], hpeer, rfl, rfl, _, rfl,
      port, [], hport, (List.append_nil port).symm, rfl, rfl⟩

/-- **What the expression of failed logins matches**: a login, of which the groups are the user and
the peer. -/
theorem matchesAt_sshFailedRe_iff {groups : Captures SshGroup} :
    MatchesAt (sshFailedRe u) text front groups ↔ ∃ user peer,
      LoginAt u text front user peer ∧ groups = [(.ip, peer), (.user, user)] := by
  unfold MatchesAt sshFailedRe
  simp only [takes_lit, takes_opt_lit, takes_user_iff]
  constructor
  · rintro ⟨_, back, rfl, _, rfl, invalid, hinvalid, _, rfl, user, peer, port, huser, hpeer,
      ⟨hne, hport⟩, rfl, rfl⟩
    obtain ⟨digit, port, rfl⟩ := List.exists_cons_of_ne_nil hne
    refine ⟨user, peer, ⟨_, digit, port ++ back, ⟨huser, invalid, hinvalid, rfl⟩, hpeer,
      hport digit List.mem_cons_self, ?_⟩, rfl⟩
    simp only [List.append_assoc, List.cons_append]
  · rintro ⟨user, peer, ⟨_, digit, back, ⟨huser, invalid, hinvalid, rfl⟩, hpeer, hdigit, rfl⟩, rfl⟩
    have hport : [digit] ≠ [] ∧ ∀ x ∈ [digit], u.decimalNumber x = true :=
      ⟨List.cons_ne_nil _ _, List.forall_mem_singleton.mpr hdigit⟩
    refine ⟨_, back, ?_, _, rfl, invalid, hinvalid, _, rfl, user, peer, [digit], huser, hpeer,
      hport, rfl, rfl⟩
    simp only [List.append_assoc, List.cons_append, List.nil_append]

end Expression

/-! ## What the server adds -/

/-- What the server writes from the address of the peer on. -/
def fromPeer (ip port : List Char) : List Char :=
  " from ".toList ++ (ip ++ (" port ".toList ++ (port ++ " ssh2".toList)))

section Peer

variable {u : Unicode} {named ip port : List Char}

theorem fromPeer_cons (ip port : List Char) : fromPeer ip port
    = ' ' :: 'f' :: ("rom ".toList ++ (ip ++ (" port ".toList ++ (port ++ " ssh2".toList)))) := rfl

/-- The port is announced in one place of what the server adds. -/
theorem fromPeer_split {c back : List Char} (hip : ' ' ∉ ip) (hport : ' ' ∉ port)
    (hip' : ip ≠ "port".toList) (hport' : port ≠ "port".toList)
    (h : fromPeer ip port = c ++ (" port ".toList ++ back)) : c = " from ".toList ++ ip := by
  have hword : ∀ {w rest : List Char}, ' ' ∉ w →
      w ++ ' ' :: rest = "port".toList ++ ' ' :: back → w = "port".toList := by
    intro w rest hw hsplit
    exact ((append_cons_inj hw (by decide)).mp hsplit).1
  have hlast : ' ' ∉ "ssh2".toList := by decide
  -- one word of the tail after the other
  rcases append_cons_cases (show ' ' ∉ ([] : List Char) by simp)
    (show [] ++ ' ' :: ("from".toList ++ ' ' :: (ip ++ ' ' :: ("port".toList ++ ' ' :: (port ++
      ' ' :: "ssh2".toList)))) = c ++ ' ' :: ("port".toList ++ ' ' :: back) from h)
    with ⟨-, h₁⟩ | ⟨c₁, hc, h₁⟩
  · exact absurd (hword (by decide) h₁) (by decide)
  rcases append_cons_cases (by decide) h₁ with ⟨-, h₂⟩ | ⟨c₂, hc₁, h₂⟩
  · exact absurd (hword hip h₂) hip'
  rcases append_cons_cases hip h₂ with ⟨hc₂, -⟩ | ⟨c₃, -, h₃⟩
  · rw [hc, hc₁, hc₂]
    rfl
  rcases append_cons_cases (by decide) h₃ with ⟨-, h₄⟩ | ⟨c₄, -, h₄⟩
  · exact absurd (hword hport h₄) hport'
  -- behind the port is one word only
  rcases append_cons_cases hport h₄ with ⟨-, h₅⟩ | ⟨c₅, -, h₅⟩ <;>
  · rw [h₅] at hlast
    simp at hlast

/-- A login that begins in what stands before the peer ends there, or is the one of the peer. -/
theorem loginAt_append_iff {front user peer : List Char} (hip : Token ip) (hport : ' ' ∉ port)
    (hip' : ip ≠ "port".toList) (hport' : port ≠ "port".toList)
    (hdigit : ∃ digit more, port = digit :: more ∧ u.decimalNumber digit = true) :
    LoginAt u (named ++ fromPeer ip port) front user peer ↔
      LoginAt u named front user peer ∨ NameAt named front user ∧ peer = ip := by
  constructor
  · rintro ⟨begun, digit, back, hname, hpeer, hnumber, hsplit⟩
    have hsplit' : named ++ fromPeer ip port
        = (begun ++ (" from ".toList ++ peer)) ++ (" port ".toList ++ digit :: back) := by
      rw [hsplit]
      simp only [List.append_assoc]
    rcases List.append_eq_append_iff.mp hsplit' with ⟨c, hbegun, htail⟩ | ⟨c, hnamed, htail⟩
    · -- the port is the one that the server adds
      obtain rfl := fromPeer_split hip.space hport hip' hport' htail
      have hsame : (begun ++ " from".toList) ++ ' ' :: peer
          = (named ++ " from".toList) ++ ' ' :: ip := by
        simpa using hbegun
      obtain ⟨hbegun, rfl⟩ := (append_cons_inj_right hpeer.space hip.space).mp hsame
      obtain rfl := List.append_cancel_right hbegun
      exact Or.inr ⟨hname, rfl⟩
    · -- the port stands before what the server adds
      left
      have hspace : digit ≠ ' ' := by
        rintro rfl
        rw [u.decimalNumber_ascii ' ' (by decide)] at hnumber
        cases hnumber
      have hletter : digit ≠ 'f' := by
        rintro rfl
        rw [u.decimalNumber_ascii 'f' (by decide)] at hnumber
        cases hnumber
      rcases List.append_eq_append_iff.mp htail with ⟨c', rfl, hback⟩ | ⟨c', hport', htail'⟩
      · rcases List.cons_eq_append_iff.mp hback with ⟨-, hpeer'⟩ | ⟨back', rfl, -⟩
        · exact absurd (List.cons.inj hpeer').1.symm hspace
        · refine ⟨begun, digit, back', hname, hpeer, hnumber, ?_⟩
          rw [hnamed]
          simp only [List.append_assoc]
      · -- what is left of the announcement cannot go on with what the server adds
        have hmem : c' ∈ " port ".toList.tails := (List.mem_tails _ _).mpr ⟨c, hport'.symm⟩
        simp only [String.reduceToList, List.tails, List.mem_cons, List.not_mem_nil,
          or_false] at hmem
        rcases hmem with rfl | rfl | rfl | rfl | rfl | rfl | rfl
        all_goals simp [fromPeer_cons] at htail'
        · exact absurd htail'.1.symm hletter
        · exact absurd htail'.1.symm hspace
  · rintro (⟨begun, digit, back, hname, hpeer, hnumber, rfl⟩ | ⟨hname, rfl⟩)
    · refine ⟨begun, digit, back ++ fromPeer ip port, hname, hpeer, hnumber, ?_⟩
      simp only [List.append_assoc, List.cons_append]
    · obtain ⟨digit, more, rfl, hnumber⟩ := hdigit
      exact ⟨named, digit, more ++ " ssh2".toList, hname, hip, hnumber, rfl⟩

end Peer

/-! ## Which login comes first -/

section First

variable {u : Unicode} {text front front' user user' peer peer' : List Char}

/-- Behind a name to the end there is no login: a login has more spaces. -/
theorem NameAt.lt_of_loginAt (hname : NameAt text front user)
    (hlogin : LoginAt u text front' user' peer) : front'.length < front.length := by
  obtain ⟨huser, invalid, hinvalid, rfl⟩ := hname
  obtain ⟨_, digit, back, ⟨-, invalid', -, rfl⟩, -, -, hsplit⟩ := hlogin
  by_contra hle
  have hlength := Nat.le_of_not_lt hle
  obtain ⟨c, rfl, hback⟩ : ∃ c, front' = front ++ c ∧
      "Failed password for ".toList ++ (invalid.toList ++ user)
        = c ++ ("Failed password for ".toList ++ (invalid'.toList ++ (user' ++ (" from ".toList ++
          (peer ++ (" port ".toList ++ digit :: back)))))) := by
    simp only [List.append_assoc] at hsplit
    rcases List.append_eq_append_iff.mp hsplit with ⟨c, hc, hback⟩ | ⟨c, rfl, hback⟩
    · exact ⟨c, hc, hback⟩
    · obtain rfl : c = [] := by simpa using hlength
      exact ⟨[], by simp, hback.symm⟩
  have hcount := congrArg (List.count ' ') hback
  simp only [List.count_append, List.count_eq_zero.mpr huser.space] at hcount
  have hfor : List.count ' ' "Failed password for ".toList = 3 := by decide
  have hfrom : List.count ' ' " from ".toList = 2 := by decide
  have hport : List.count ' ' " port ".toList = 2 := by decide
  have hinv : List.count ' ' invalid.toList ≤ 2 := by
    rcases List.mem_pair.mp hinvalid with rfl | rfl <;> decide
  omega

theorem LoginAt.isPrefix (h : LoginAt u text front user peer) : front <+: text := by
  obtain ⟨_, digit, back, ⟨-, invalid, -, rfl⟩, -, -, rfl⟩ := h
  simp only [List.append_assoc]
  exact List.prefix_append _ _

/-- A user who is one word is not followed by another word. -/
theorem user_from_ne {user rest rest' : List Char} (huser : Token user) :
    user ++ (" from ".toList ++ rest) ≠ "invalid user ".toList ++ rest' := by
  intro h
  have hwords : user ++ ' ' :: ("from ".toList ++ rest)
      = "invalid".toList ++ ' ' :: ("user ".toList ++ rest') := h
  have hword := ((append_cons_inj huser.space (by decide)).mp hwords).2
  simp at hword

/-- The text tells the peer of a login by where it begins. -/
theorem LoginAt.peer_eq (h : LoginAt u text front user peer)
    (h' : LoginAt u text front user' peer') : peer = peer' := by
  obtain ⟨_, digit, back, ⟨huser, invalid, hinvalid, rfl⟩, hpeer, -, rfl⟩ := h
  obtain ⟨_, digit', back', ⟨huser', invalid', hinvalid', rfl⟩, hpeer', -, hsplit⟩ := h'
  simp only [List.append_assoc, List.append_cancel_left_eq] at hsplit
  have hsame : user ++ (" from ".toList ++ (peer ++ (" port ".toList ++ digit :: back)))
      = user' ++ (" from ".toList ++ (peer' ++ (" port ".toList ++ digit' :: back'))) := by
    rcases List.mem_pair.mp hinvalid with rfl | rfl <;>
      rcases List.mem_pair.mp hinvalid' with rfl | rfl
    · exact hsplit
    · exact absurd hsplit (user_from_ne huser)
    · exact absurd hsplit.symm (user_from_ne huser')
    · exact List.append_cancel_left hsplit
  have hpeers := List.append_cancel_left
    (show "from ".toList ++ (peer ++ (" port ".toList ++ digit :: back)) = "from ".toList ++ _ from
      ((append_cons_inj huser.space huser'.space).mp hsame).2)
  exact ((append_cons_inj hpeer.space hpeer'.space).mp hpeers).1

/-- So two logins that begin equally far into the text are from one peer. -/
theorem LoginAt.peer_eq_of_length (h : LoginAt u text front user peer)
    (h' : LoginAt u text front' user' peer') (hlength : front.length = front'.length) :
    peer = peer' := by
  have hprefix : front <+: front' :=
    List.prefix_of_prefix_length_le h.isPrefix h'.isPrefix hlength.le
  obtain rfl := hprefix.eq_of_length hlength
  exact h.peer_eq h'

end First

/-! ## The peer that is reported -/

/-- What stands before the peer leaves the login to it: the first login in it is from the same
address, or there is none and it ends in the name of the user. -/
def NamesPeer (u : Unicode) (named : List Char) (addr : IpAddr) : Prop :=
  (∃ front user peer, LoginAt u named front user peer ∧
    (∀ front' user' peer', LoginAt u named front' user' peer' → front.length ≤ front'.length) ∧
    IpAddr.parse (String.ofList peer) = some addr) ∨
  (∃ front user, NameAt named front user) ∧
    ∀ front user peer, ¬ LoginAt u named front user peer

variable {crates : Externals} {ip : String} {addr : IpAddr}

theorem toList_failedPassword (invalid : Bool) (user ip : String) (port : ℕ) :
    (failedPassword invalid user ip port).toList
      = (namedUser invalid user).toList ++ fromPeer ip.toList (toString port).toList := by
  simp only [failedPassword, String.toList_append, List.append_assoc]
  rfl

/-- An address is one word, and not the one that announces the port. -/
theorem token_of_parse (hip : IpAddr.parse ip = some addr) :
    Token ip.toList ∧ ip.toList ≠ "port".toList := by
  obtain ⟨hne, hgraphic⟩ := IpAddr.graphic_of_parse hip
  refine ⟨token_of_graphic hne hgraphic, fun h => ?_⟩
  have hp := IpAddr.forall_isAddrChar_of_parse hip 'p' (h ▸ by decide)
  revert hp
  unfold IpAddr.IsAddrChar
  decide

theorem digits_port (u : Unicode) (port : ℕ) : ' ' ∉ (toString port).toList ∧
    (toString port).toList ≠ "port".toList ∧
    ∃ digit more, (toString port).toList = digit :: more ∧ u.decimalNumber digit = true := by
  have hall : ∀ c ∈ (toString port).toList, c.isDigit = true := by
    intro c hc
    rw [Nat.toString_eq_repr, Nat.toList_repr] at hc
    exact Nat.isDigit_of_mem_toDigits (by decide) (by decide) hc
  have hmissing : ∀ {c : Char}, c.isDigit = false → c ∉ (toString port).toList := fun hc hmem =>
    not_mem_of_class hall hc hmem
  refine ⟨hmissing (by decide), fun h => hmissing (c := 'p') (by decide) (h ▸ by decide), ?_⟩
  obtain ⟨digit, more, hcons⟩ := List.exists_cons_of_ne_nil
    (show (toString port).toList ≠ [] by simp [Nat.toString_eq_repr])
  have hdigit := hall digit (hcons ▸ List.mem_cons_self)
  exact ⟨digit, more, hcons, decimalNumber_of_isDigit u hdigit⟩

/-- The expression matches a login that the name of the user contains, or the one of the peer. -/
theorem matchesAt_failedPassword_iff (u : Unicode) (hip : IpAddr.parse ip = some addr)
    (invalid : Bool) (user : String) (port : ℕ) {front : List Char}
    {groups : Captures SshGroup} :
    MatchesAt (sshFailedRe u) (failedPassword invalid user ip port).toList front groups ↔
      ∃ name peer, (LoginAt u (namedUser invalid user).toList front name peer ∨
        NameAt (namedUser invalid user).toList front name ∧ peer = ip.toList) ∧
        groups = [(.ip, peer), (.user, name)] := by
  obtain ⟨htoken, hword⟩ := token_of_parse hip
  obtain ⟨hspace, hport, hdigit⟩ := digits_port u port
  simp only [matchesAt_sshFailedRe_iff, toList_failedPassword,
    loginAt_append_iff htoken hspace hword hport hdigit]

/-- **The peer of a failed login is reported** exactly when what stands before its address leaves
the login to it. -/
theorem classifyAuthMessage_failedPassword_iff (hip : IpAddr.parse ip = some addr) (invalid : Bool)
    (user : String) (port : ℕ) :
    classifyAuthMessage crates (failedPassword invalid user ip port) = (.Security, some addr) ↔
      NamesPeer crates.unicode (namedUser invalid user).toList addr := by
  unfold classifyAuthMessage
  cases hcaptures : (sshFailedRe crates.unicode).captures
      (failedPassword invalid user ip port).toList with
  | none =>
    have hnone := captures_eq_none_iff.mp hcaptures
    have hnothing : ∀ front name peer,
        ¬ (LoginAt crates.unicode (namedUser invalid user).toList front name peer ∨
          NameAt (namedUser invalid user).toList front name ∧ peer = ip.toList) :=
      fun front name peer h => hnone front _
        ((matchesAt_failedPassword_iff _ hip invalid user port).mpr ⟨name, peer, h, rfl⟩)
    constructor
    · intro h
      dsimp only at h
      repeat' split at h
      all_goals cases h
    · rintro (⟨front, name, peer, hlogin, -⟩ | ⟨⟨front, name, hname⟩, -⟩)
      · exact absurd (Or.inl hlogin) (hnothing front name peer)
      · exact absurd (Or.inr ⟨hname, rfl⟩) (hnothing front name ip.toList)
  | some groups =>
    obtain ⟨front, hfirst, hleftmost⟩ := matchesAt_of_captures hcaptures
    obtain ⟨name, peer, hlogin, rfl⟩ :=
      (matchesAt_failedPassword_iff _ hip invalid user port).mp hfirst
    have hbefore : ∀ front' name' peer',
        LoginAt crates.unicode (namedUser invalid user).toList front' name' peer' →
          front.length ≤ front'.length := fun front' name' peer' h =>
      hleftmost front' _ ((matchesAt_failedPassword_iff _ hip invalid user port).mpr
        ⟨name', peer', Or.inl h, rfl⟩)
    have hreported : (LogLevel.Security, (Captures.name [(SshGroup.ip, peer), (.user, name)]
          SshGroup.ip).bind IpAddr.parse) = (LogLevel.Security, some addr) ↔
        IpAddr.parse (String.ofList peer) = some addr := by
      rw [Prod.mk.injEq]
      exact and_iff_right rfl
    dsimp only
    rw [hreported]
    rcases hlogin with hlogin | ⟨hname, rfl⟩
    · constructor
      · intro hpeer
        exact Or.inl ⟨front, name, peer, hlogin, hbefore, hpeer⟩
      · rintro (⟨front', name', peer', hlogin', hbefore', hpeer⟩ | ⟨-, hnone⟩)
        · -- the first login is the one that the search found
          have hlength := Nat.le_antisymm (hbefore front' name' peer' hlogin')
            (hbefore' front name peer hlogin)
          rw [hlogin.peer_eq_of_length hlogin' hlength]
          exact hpeer
        · exact absurd hlogin (hnone front name peer)
    · rw [String.ofList_toList]
      refine iff_of_true hip (Or.inr ⟨⟨front, name, hname⟩, fun front' name' peer' hlogin' => ?_⟩)
      have hlt := hname.lt_of_loginAt hlogin'
      exact absurd (hbefore front' name' peer' hlogin') (Nat.not_le.mpr hlt)

/-- A user who is one word names the peer. -/
theorem namesPeer_of_token (u : Unicode) (invalid : Bool) {user : String}
    (huser : Token user.toList) (addr : IpAddr) :
    NamesPeer u (namedUser invalid user).toList addr := by
  have hname : NameAt (namedUser invalid user).toList [] user.toList := by
    unfold namedUser
    rw [String.toList_append, String.toList_append, List.append_assoc]
    cases invalid with
    | false => exact ⟨huser, "", List.mem_cons_self, rfl⟩
    | true => exact ⟨huser, "invalid user ", List.mem_cons_of_mem _ List.mem_cons_self, rfl⟩
  refine Or.inr ⟨⟨[], _, hname⟩, fun front name peer hlogin => ?_⟩
  exact Nat.not_lt_zero _ (hname.lt_of_loginAt hlogin)

theorem classifyAuthMessage_failedPassword_bob :
    classifyAuthMessage newYearCrates (failedPassword true "bob" "192.0.2.7" 22)
      = (.Security, some (.V4 ⟨192, 0, 2, 7⟩)) :=
  (classifyAuthMessage_failedPassword_iff (by decide +kernel) true "bob" 22).mpr
    (namesPeer_of_token .ascii true (token_of_all (by decide) (by decide)) _)

/-- The name of the user forges another peer. -/
theorem classifyAuthMessage_failedPassword_forged :
    IpAddr.parse "192.0.2.7" = some (.V4 ⟨192, 0, 2, 7⟩) ∧
    classifyAuthMessage newYearCrates
        (failedPassword false "x from 198.51.100.1 port 1" "192.0.2.7" 22)
      ≠ (.Security, some (.V4 ⟨192, 0, 2, 7⟩)) := by
  have hforged : classifyAuthMessage newYearCrates
        (failedPassword false "x from 198.51.100.1 port 1" "192.0.2.7" 22)
      = (.Security, some (.V4 ⟨198, 51, 100, 1⟩)) := by
    decide +kernel
  rw [hforged]
  decide +kernel

end Sentinalysis.LogScanner
