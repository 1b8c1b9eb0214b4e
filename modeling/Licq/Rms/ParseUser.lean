import Licq.Rms.Client

/-!
# Rms/ParseUser — which user the argument of a command selects

An argument is the account of a user, with a dot and the name of a protocol if it needs one.  The last
dot is taken for that of the protocol, and the account in front of it is cut by one more character, so
that `parseUser_iff` leaves next to no argument with a dot that selects the user it names.
-/

namespace Licq

open List

/-! ## Normal account ids -/

theorem length_normalizeId_le (accountId : List Char) (ppid : ℕ) :
    (normalizeId accountId ppid).length ≤ accountId.length := by
  cases accountId with
  | nil => exact le_rfl
  | cons c s =>
    rw [normalizeId]
    split_ifs
    · rw [length_map]
      exact length_filter_le _ _
    · exact le_rfl

theorem toLower_eq_dot_iff {c : Char} : c.toLower = '.' ↔ c = '.' := by
  refine ⟨fun h => ?_, fun h => by rw [h]; rfl⟩
  by_contra hne
  exact toLower_ne hne (by decide) h

/-- The dots of an account id are those of its normal form. -/
theorem count_dot_normalizeId (accountId : List Char) (ppid : ℕ) :
    (normalizeId accountId ppid).count '.' = accountId.count '.' := by
  cases accountId with
  | nil => rfl
  | cons c s =>
    rw [normalizeId]
    split_ifs
    · rw [count_eq_countP, countP_map, countP_filter, count_eq_countP]
      refine countP_congr fun d _ => ?_
      simp only [Function.comp_apply, Bool.and_eq_true, beq_iff_eq, toLower_eq_dot_iff]
      constructor
      · exact fun h => h.1
      · rintro rfl
        exact ⟨rfl, by decide⟩
    · rfl

namespace Rms.Env

variable {env : Env} {protocolId : ℕ} {accountId : List Char}

/-! ## The search -/

/-- What `ParseUser` does with the protocol and the account it has read. -/
def select (env : Env) (protocolId : ℕ) (accountId : List Char) : Option UserId :=
  match env.users.find? fun u => (protocolId = 0 ∨ u.protocolId = protocolId) ∧
      u.accountId = accountId with
  | some u => some u
  | none =>
    if protocolId = 0 then none
    else (env.owners.find? fun o => o.1.protocolId = protocolId).map fun o => .user o.1 accountId

theorem parseUser_eq (data : List Char) :
    env.parseUser data = env.select
      (if data.reverse.dropWhile (· ≠ '.') = [] then 0
        else protocolIdFromString env.plugins (data.reverse.takeWhile (· ≠ '.')).reverse)
      (if data.reverse.dropWhile (· ≠ '.') = [] then data
        else if (data.reverse.dropWhile (· ≠ '.')).length = 1 then data
        else (data.reverse.dropWhile (· ≠ '.')).tail.tail.reverse) := rfl

theorem parseUser_of_notMem {data : List Char} (h : '.' ∉ data) :
    env.parseUser data = env.select 0 data := by
  have hdrop : data.reverse.dropWhile (· ≠ '.') = [] := by
    refine dropWhile_eq_nil_iff.mpr fun c hc => ?_
    exact decide_eq_true fun heq => h (heq ▸ mem_reverse.mp hc)
  rw [parseUser_eq, hdrop, if_pos rfl, if_pos rfl]

/-- **The last dot** is that of the protocol, and the character before it is lost. -/
theorem parseUser_append_dot (a : List Char) {b : List Char} (h : '.' ∉ b) :
    env.parseUser (a ++ '.' :: b) =
      env.select (protocolIdFromString env.plugins b) (if a = [] then '.' :: b else a.dropLast) := by
  have hreverse : (a ++ '.' :: b).reverse = b.reverse ++ '.' :: a.reverse := by simp
  have hb : ∀ c ∈ b.reverse, decide (c ≠ '.') = true := fun c hc =>
    decide_eq_true fun heq => h (heq ▸ mem_reverse.mp hc)
  have hdrop : (a ++ '.' :: b).reverse.dropWhile (· ≠ '.') = '.' :: a.reverse := by
    rw [hreverse, dropWhile_append_of_pos hb, dropWhile_cons_of_neg (by simp)]
  have htake : (a ++ '.' :: b).reverse.takeWhile (· ≠ '.') = b.reverse := by
    rw [hreverse, takeWhile_append_of_pos hb, takeWhile_cons_of_neg (by simp),
      append_nil]
  rw [parseUser_eq, hdrop, htake, reverse_reverse, if_neg (cons_ne_nil _ _),
    if_neg (cons_ne_nil _ _)]
  by_cases ha : a = []
  · rw [if_pos ha, ha]
    rfl
  · have hlength : ('.' :: a.reverse).length ≠ 1 := by
      rw [length_cons, length_reverse]
      exact fun h => ha (length_eq_zero_iff.mp (Nat.succ.inj h))
    rw [if_neg ha, if_neg hlength, tail_cons, tail_reverse, reverse_reverse]

variable {r u : UserId}

/-- What is selected has the account that has been read, as far as it is normal. -/
theorem accountId_select (h : env.select protocolId accountId = some r) :
    ∃ ppid, normalizeId accountId ppid = r.accountId := by
  rw [select] at h
  split at h
  · rename_i u hu
    obtain rfl := Option.some.inj h
    have haccount := find?_some hu
    simp only [decide_eq_true_eq] at haccount
    exact ⟨u.protocolId, haccount.2 ▸ u.normal⟩
  · split_ifs at h
    obtain ⟨o, -, rfl⟩ := Option.map_eq_some_iff.mp h
    exact ⟨o.1.protocolId, rfl⟩

theorem length_select_le (h : env.select protocolId accountId = some r) :
    r.accountId.length ≤ accountId.length := by
  obtain ⟨ppid, hr⟩ := accountId_select h
  rw [← hr]
  exact length_normalizeId_le accountId ppid

theorem count_dot_select (h : env.select protocolId accountId = some r) :
    r.accountId.count '.' = accountId.count '.' := by
  obtain ⟨ppid, hr⟩ := accountId_select h
  rw [← hr]
  exact count_dot_normalizeId accountId ppid

/-- The first user with the account. -/
def firstUser (env : Env) (accountId : List Char) : Option UserId :=
  env.users.find? fun u => u.accountId = accountId

theorem select_zero : env.select 0 accountId = env.firstUser accountId := by
  rw [select, firstUser]
  have hfind : (fun u : UserId => decide (((0 : ℕ) = 0 ∨ u.protocolId = 0) ∧
      u.accountId = accountId)) = fun u => decide (u.accountId = accountId) := by
    funext u
    simp
  rw [hfind]
  cases env.users.find? fun u => decide (u.accountId = accountId) <;> rfl

theorem accountId_firstUser (h : env.firstUser accountId = some r) :
    r ∈ env.users ∧ r.accountId = accountId :=
  ⟨mem_of_find?_eq_some h, by simpa using find?_some h⟩

theorem exists_firstUser (hu : u ∈ env.users) (haccount : u.accountId = accountId) :
    ∃ r, env.firstUser accountId = some r := by
  refine Option.isSome_iff_exists.mp (find?_isSome.mpr ⟨u, hu, ?_⟩)
  exact decide_eq_true haccount

/-- **A known protocol**: what is selected has this protocol. -/
theorem protocolId_select (hp : protocolId ≠ 0)
    (h : env.select protocolId accountId = some r) : r.protocolId = protocolId := by
  rw [select] at h
  split at h
  · rename_i u hu
    cases h
    have hprotocol := find?_some hu
    simp only [decide_eq_true_eq] at hprotocol
    exact hprotocol.1.resolve_left hp
  · rw [if_neg hp] at h
    obtain ⟨o, ho, rfl⟩ := Option.map_eq_some_iff.mp h
    simpa [UserId.user] using find?_some ho

/-- A user with the protocol and the account is found. -/
theorem select_of_mem (hu : u ∈ env.users) (hprotocol : u.protocolId = protocolId)
    (haccount : u.accountId = accountId) :
    ∃ r ∈ env.users, env.select protocolId accountId = some r ∧ r.accountId = accountId := by
  have hsome : (env.users.find? fun u => (protocolId = 0 ∨ u.protocolId = protocolId) ∧
      u.accountId = accountId).isSome :=
    find?_isSome.mpr ⟨u, hu, decide_eq_true ⟨.inr hprotocol, haccount⟩⟩
  obtain ⟨r, hr⟩ := Option.isSome_iff_exists.mp hsome
  have hfound := find?_some hr
  simp only [decide_eq_true_eq] at hfound
  refine ⟨r, mem_of_find?_eq_some hr, ?_, hfound.2⟩
  rw [select, hr]

/-! ## Arguments -/

/-- The argument selects a user with this account and protocol. -/
def Selects (env : Env) (data accountId : List Char) (protocolId : ℕ) : Prop :=
  ∃ r, env.parseUser data = some r ∧ r.accountId = accountId ∧ r.protocolId = protocolId

/-- The argument selects a user of the list with this account. -/
def SelectsUser (env : Env) (data accountId : List Char) : Prop :=
  ∃ r ∈ env.users, env.parseUser data = some r ∧ r.accountId = accountId

/-- A text has no dot, or a last one. -/
theorem eq_append_dot_of_mem {s : List Char} (h : '.' ∈ s) :
    ∃ a b, s = a ++ '.' :: b ∧ '.' ∉ b := by
  obtain ⟨a, b, hs, hb⟩ := eq_append_cons_of_mem (mem_reverse.mpr h)
  refine ⟨b.reverse, a.reverse, ?_, fun hmem => hb (mem_reverse.mp hmem)⟩
  have hreverse := congrArg reverse hs
  rw [reverse_reverse] at hreverse
  rw [hreverse]
  simp

/-- The name of a protocol does not select another user: it is a dot and a name without dots, which is
that of the protocol, or of none, when the first user with the account is one of the protocol. -/
def NameOk (env : Env) (u : UserId) (name : List Char) : Prop :=
  ∃ b, name = '.' :: b ∧ '.' ∉ b ∧
    (protocolIdFromString env.plugins b = u.protocolId ∧ u.protocolId ≠ 0 ∨
      protocolIdFromString env.plugins b = 0 ∧
        ∀ r ∈ env.firstUser u.accountId, r.protocolId = u.protocolId)

/-- The account selects a user by itself: it has no dot, or only its first character is one, and what
follows is not the name of a protocol without a user of that account. -/
def AccountOk (env : Env) (accountId : List Char) : Prop :=
  '.' ∈ accountId → ∃ b, accountId = '.' :: b ∧ '.' ∉ b ∧
    (protocolIdFromString env.plugins b = 0 ∨
      ∃ v ∈ env.users, v.protocolId = protocolIdFromString env.plugins b ∧ v.accountId = accountId)

theorem selects_name_iff (hu : u ∈ env.users) (name : List Char) :
    env.Selects (u.accountId ++ '.' :: name) u.accountId u.protocolId ↔ env.NameOk u name := by
  by_cases hdot : '.' ∈ name
  · obtain ⟨a, b, rfl, hb⟩ := eq_append_dot_of_mem hdot
    have hargument : u.accountId ++ '.' :: (a ++ '.' :: b) = (u.accountId ++ '.' :: a) ++ '.' :: b := by
      rw [append_assoc, cons_append]
    have hne : u.accountId ++ '.' :: a ≠ [] := append_ne_nil_of_right_ne_nil _ (cons_ne_nil _ _)
    rw [Selects, hargument, parseUser_append_dot _ hb, if_neg hne]
    by_cases ha : a = []
    · subst ha
      rw [dropLast_concat]
      have hname : env.NameOk u ([] ++ '.' :: b) ↔
          (protocolIdFromString env.plugins b = u.protocolId ∧ u.protocolId ≠ 0 ∨
            protocolIdFromString env.plugins b = 0 ∧
              ∀ r ∈ env.firstUser u.accountId, r.protocolId = u.protocolId) := by
        constructor
        · rintro ⟨b', heq, -, h⟩
          obtain rfl : b = b' := (List.cons.inj heq).2
          exact h
        · exact fun h => ⟨b, rfl, hb, h⟩
      rw [hname]
      by_cases hzero : protocolIdFromString env.plugins b = 0
      · rw [hzero, select_zero]
        obtain ⟨r, hr⟩ := exists_firstUser hu rfl
        constructor
        · rintro ⟨r', hr', -, hprotocol⟩
          refine .inr ⟨rfl, fun r hr => ?_⟩
          cases hr'.symm.trans hr
          exact hprotocol
        · rintro (⟨h, hne⟩ | ⟨-, h⟩)
          · exact absurd h.symm hne
          · exact ⟨r, hr, (accountId_firstUser hr).2, h r hr⟩
      · constructor
        · rintro ⟨r, hr, -, hprotocol⟩
          have hsame := (protocolId_select hzero hr).symm.trans hprotocol
          exact .inl ⟨hsame, hsame ▸ hzero⟩
        · rintro (⟨h, -⟩ | ⟨h, -⟩)
          · obtain ⟨r, -, hr, haccount⟩ := select_of_mem hu h.symm rfl
            exact ⟨r, hr, haccount, (protocolId_select hzero hr).trans h⟩
          · exact absurd h hzero
    · refine iff_of_false ?_ ?_
      · rintro ⟨r, hr, haccount, -⟩
        have hcount := count_dot_select hr
        obtain ⟨a', c, rfl⟩ := eq_nil_or_concat a |>.resolve_left ha
        rw [concat_eq_append, ← cons_append, ← append_assoc, dropLast_concat,
          haccount, count_append, count_cons_self] at hcount
        omega
      · rintro ⟨b', heq, hb', -⟩
        obtain ⟨c, a', rfl⟩ := exists_cons_of_ne_nil ha
        have htail := (List.cons.inj heq).2
        exact hb' (htail ▸ mem_append_right a' mem_cons_self)
  · refine iff_of_false ?_ ?_
    · rintro ⟨r, hr, haccount, -⟩
      rw [parseUser_append_dot _ hdot] at hr
      by_cases hempty : u.accountId = []
      · rw [if_pos hempty] at hr
        have hcount := count_dot_select hr
        rw [haccount, hempty, count_cons_self] at hcount
        cases hcount
      · rw [if_neg hempty] at hr
        have hlength := length_select_le hr
        rw [haccount, length_dropLast] at hlength
        have hpos := length_pos_iff.mpr hempty
        omega
    · rintro ⟨b, rfl, -⟩
      exact hdot mem_cons_self

theorem selectsUser_iff (hu : u ∈ env.users) :
    env.SelectsUser u.accountId u.accountId ↔ env.AccountOk u.accountId := by
  by_cases hdot : '.' ∈ u.accountId
  · obtain ⟨a, b, haccount, hb⟩ := eq_append_dot_of_mem hdot
    rw [SelectsUser, haccount, parseUser_append_dot _ hb]
    by_cases ha : a = []
    · subst ha
      rw [if_pos rfl, nil_append]
      have hok : env.AccountOk ('.' :: b) ↔ (protocolIdFromString env.plugins b = 0 ∨
          ∃ v ∈ env.users, v.protocolId = protocolIdFromString env.plugins b ∧
            v.accountId = '.' :: b) := by
        constructor
        · intro h
          obtain ⟨b', heq, -, h⟩ := h mem_cons_self
          obtain rfl := (List.cons.inj heq).2
          exact h
        · exact fun h _ => ⟨b, rfl, hb, h⟩
      rw [hok]
      constructor
      · rintro ⟨r, hr, hselect, hraccount⟩
        by_cases hzero : protocolIdFromString env.plugins b = 0
        · exact .inl hzero
        · exact .inr ⟨r, hr, protocolId_select hzero hselect, hraccount⟩
      · rintro (hzero | ⟨v, hv, hprotocol, hvaccount⟩)
        · obtain ⟨r, hr⟩ := exists_firstUser hu haccount
          rw [hzero, select_zero]
          exact ⟨r, (accountId_firstUser hr).1, hr, (accountId_firstUser hr).2⟩
        · exact select_of_mem hv hprotocol hvaccount
    · rw [if_neg ha]
      refine iff_of_false ?_ ?_
      · rintro ⟨r, -, hr, hraccount⟩
        have hlength := length_select_le hr
        rw [hraccount, length_append, length_cons, length_dropLast] at hlength
        omega
      · intro h
        obtain ⟨b', heq, hb', -⟩ := h (mem_append_right a mem_cons_self)
        obtain ⟨c, a', rfl⟩ := exists_cons_of_ne_nil ha
        have htail := (List.cons.inj heq).2
        exact hb' (htail ▸ mem_append_right a' mem_cons_self)
  · refine iff_of_true ?_ fun h => absurd h hdot
    obtain ⟨r, hr⟩ := exists_firstUser hu rfl
    rw [SelectsUser, parseUser_of_notMem hdot, select_zero]
    exact ⟨r, (accountId_firstUser hr).1, hr, (accountId_firstUser hr).2⟩

/-- **What the arguments for a user select**: with the name of a protocol hardly ever the user, and
without it the user unless its account has a dot that is taken for that of a protocol. -/
theorem parseUser_iff (env : Env) (u : UserId) (name : List Char) (hu : u ∈ env.users) :
    (env.Selects (u.accountId ++ '.' :: name) u.accountId u.protocolId ↔ env.NameOk u name) ∧
      (env.SelectsUser u.accountId u.accountId ↔ env.AccountOk u.accountId) :=
  ⟨selects_name_iff hu name, selectsUser_iff hu⟩

/-- An owner with the users 1234 and 12345. -/
def twoUsers : Env where
  myAuthOwnerId := none
  myAuthUser := []
  myAuthPassword := []
  owners := [(.owner icqPpid ['1'], [])]
  users := [.user (.owner icqPpid ['1']) ['1', '2', '3', '4'],
    .user (.owner icqPpid ['1']) ['1', '2', '3', '4', '5']]
  plugins := [⟨['I', 'C', 'Q'], icqPpid⟩]
  newMessages := none
  haveCryptoSupport := false
  flushes := true

theorem parseUser_iff_twoUsers :
    (twoUsers.Selects ['1', '2', '3', '4', '.', 'I', 'C', 'Q'] ['1', '2', '3', '4'] icqPpid ↔
      twoUsers.NameOk (.user (.owner icqPpid ['1']) ['1', '2', '3', '4']) ['I', 'C', 'Q']) ∧
    (twoUsers.SelectsUser ['1', '2', '3', '4'] ['1', '2', '3', '4'] ↔
      twoUsers.AccountOk ['1', '2', '3', '4']) :=
  parseUser_iff twoUsers (.user (.owner icqPpid ['1']) ['1', '2', '3', '4']) ['I', 'C', 'Q']
    (by decide)

/-- **Another user is selected**: `12345.ICQ` is the user 1234. -/
theorem not_selects_icq : ¬ ∀ u ∈ twoUsers.users, ∀ name,
    protocolIdFromString twoUsers.plugins name = u.protocolId →
      twoUsers.Selects (u.accountId ++ '.' :: name) u.accountId u.protocolId := by
  intro h
  obtain ⟨r, hr, haccount, -⟩ := h (.user (.owner icqPpid ['1']) ['1', '2', '3', '4', '5'])
    (by decide) ['I', 'C', 'Q'] (by decide)
  have hselected : twoUsers.parseUser ['1', '2', '3', '4', '5', '.', 'I', 'C', 'Q'] =
      some (.user (.owner icqPpid ['1']) ['1', '2', '3', '4']) := by decide
  cases hselected.symm.trans hr
  exact absurd haccount (by decide)

end Rms.Env

end Licq
