import Licq.Daemon.Filter
import Licq.IniFile.Edit
import Licq.IniFile.Holds
import Licq.ContactList.GroupFile

/-!
# Daemon/FilterConf — saving and loading the rules

`FilterManager::saveRules` numbers the rules from 1 and writes the parameters of each under its
number; parameters of higher numbers are removed.  `FilterManager::initialize` reads as many rules
as were counted.  A protocol is saved by its name, and a name that no loaded plugin has is read as
zero, which stands for all protocols.

The **main result** `restoresRules_iff` says which rules come back.
-/

namespace Licq.Filter

open Text IniFile List Option

/-! ## The parameters of a rule -/

def eventfilter : List Char := ['e', 'v', 'e', 'n', 't', 'f', 'i', 'l', 't', 'e', 'r']

def numRules : List Char := ['N', 'u', 'm', 'R', 'u', 'l', 'e', 's']

def enabledField : List Char := ['e', 'n', 'a', 'b', 'l', 'e', 'd']

def protocolField : List Char := ['p', 'r', 'o', 't', 'o', 'c', 'o', 'l']

def eventsField : List Char := ['e', 'v', 'e', 'n', 't', 's']

def expressionField : List Char := ['e', 'x', 'p', 'r', 'e', 's', 's', 'i', 'o', 'n']

def actionField : List Char := ['a', 'c', 't', 'i', 'o', 'n']

/-- "Rule%i" and a field. -/
def ruleKey (i : ℕ) (field : List Char) : List Char :=
  ['R', 'u', 'l', 'e'] ++ decimal i ++ '.' :: field

/-- `sprintf` of the name to `char key[20]`; none when it does not fit. -/
def sprintfKey (i : ℕ) (field : List Char) : Option (List Char) :=
  if (ruleKey i field).length < 20 then some (ruleKey i field) else none

/-! ## The manager -/

structure FilterManager where
  myRules : List FilterRule
  /-- The file filter.conf. -/
  disk : Option (List Char)
  deriving DecidableEq

/-- The bytes of a string. -/
def bytes (s : List ℕ) : List Char := s.map Char.ofNat

def getDefaultRules : List FilterRule :=
  let authRequests : UInt64 := .ofNat (1 <<< 6)
  -- Log but don't notify authorization requests containing URLs
  [⟨true, 0, authRequests, ['.', '*', 'h', 't', 't', 'p', ':', '/', '/', '.', '*'], actionSilent⟩,
    -- Ignore reoccuring spam messages that are sent as ICQ Authorization Requests
    ⟨true, icqPpid, authRequests, bytes
        [0x28, 0xD0, 0xBF, 0x7C, 0xD0, 0x9F, 0x29, 0xD1, 0x80, 0xD0, 0xB8, 0xD0, 0xB2,
          0xD0, 0xB5, 0xD1, 0x82, 0x28, 0xD0, 0xB8, 0xD0, 0xBA, 0x29, 0x3F, 0x20, 0x3D,
          0x5C, 0x29],
      actionIgnore⟩,
    ⟨true, icqPpid, authRequests, bytes
        [0xD0, 0x90, 0x20, 0xD1, 0x8F, 0x20, 0xD1, 0x82, 0xD0, 0xB5, 0xD0, 0xB1, 0xD1,
          0x8F, 0x20, 0xD0, 0xB7, 0xD0, 0xBD, 0xD0, 0xB0, 0xD1, 0x8E, 0x20, 0x3D, 0x5C,
          0x29],
      actionIgnore⟩,
    ⟨true, icqPpid, authRequests, bytes
        [0xD0, 0x9F, 0xD0, 0xBE, 0xD0, 0xB6, 0xD0, 0xB5, 0xD0, 0xBB, 0xD1, 0x83, 0xD0,
          0xB9, 0xD1, 0x81, 0xD1, 0x82, 0xD0, 0xB0, 0x2C, 0x20, 0xD1, 0x80, 0xD0, 0xB0,
          0xD0, 0xB7, 0xD1, 0x80, 0xD0, 0xB5, 0xD1, 0x88, 0xD0, 0xB8, 0xD1, 0x82, 0xD0,
          0xB5, 0x20, 0xD0, 0xB4, 0xD0, 0xBE, 0xD0, 0xB1, 0xD0, 0xB0, 0xD0, 0xB2, 0xD0,
          0xB8, 0xD1, 0x82, 0xD1, 0x8C, 0x20, 0xD0, 0x92, 0xD0, 0xB0, 0xD1, 0x81, 0x20,
          0xD0, 0xB2, 0x20, 0xD0, 0xBC, 0xD0, 0xBE, 0xD0, 0xB9, 0x20, 0xD1, 0x81, 0xD0,
          0xBF, 0xD0, 0xB8, 0xD1, 0x81, 0xD0, 0xBE, 0xD0, 0xBA, 0x20, 0xD0, 0xBA, 0xD0,
          0xBE, 0xD0, 0xBD, 0xD1, 0x82, 0xD0, 0xB0, 0xD0, 0xBA, 0xD1, 0x82, 0xD0, 0xBE,
          0xD0, 0xB2],
      actionIgnore⟩]

/-! ## Saving -/

def setField (i : ℕ) (field value : List Char) (conf : IniFile) : Option IniFile := do
  let key ← sprintfKey i field
  let (_, conf) ← set conf key value
  some conf

/-- The protocol of a rule, as it is saved. -/
def protocolText (protocolId : ℕ) : List Char :=
  if protocolId = 0 then [] else protocolIdToString protocolId

def saveRule (i : ℕ) (rule : FilterRule) (conf : IniFile) : Option IniFile := do
  let conf ← setField i enabledField (boolText rule.isEnabled) conf
  let conf ← setField i protocolField (protocolText rule.protocolId) conf
  let conf ← setField i eventsField (decimal rule.eventMask.toNat) conf
  let conf ← setField i expressionField rule.expression conf
  setField i actionField (decimalInt rule.action) conf

/-- The rules after number `i`. -/
def saveRulesFrom : ℕ → List FilterRule → IniFile → Option IniFile
  | _, [], conf => some conf
  | i, rule :: rules, conf => do
    let conf ← saveRule (i + 1) rule conf
    saveRulesFrom (i + 1) rules conf

def unsetField (i : ℕ) (field : List Char) (conf : IniFile) : Option IniFile := do
  let key ← sprintfKey i field
  some (unset conf key).2

def unsetRule (i : ℕ) (conf : IniFile) : Option IniFile := do
  let conf ← unsetField i enabledField conf
  let conf ← unsetField i protocolField conf
  let conf ← unsetField i eventsField conf
  let conf ← unsetField i expressionField conf
  unsetField i actionField conf

/-- Remove old entries after number `i`. -/
def unsetRules : ℕ → ℕ → IniFile → Option IniFile
  | 0, _, conf => some conf
  | left + 1, i, conf => do
    let conf ← unsetRule (i + 1) conf
    unsetRules left (i + 1) conf

namespace FilterManager

def saveRules (m : FilterManager) (oldCount : ℕ) : Option FilterManager := do
  let conf := (ConfFile.loadFile (ConfFile.opened m.disk)).2
  let ini := (setSection conf.ini eventfilter true).2
  let (_, ini) ← set ini numRules (decimal m.myRules.length)
  let ini ← saveRulesFrom 0 m.myRules ini
  let ini ← unsetRules (oldCount - m.myRules.length) m.myRules.length ini
  some { m with disk := (ConfFile.writeFile { conf with ini := ini }).2.disk }

def setRules (m : FilterManager) (newRules : List FilterRule) : Option FilterManager :=
  saveRules { m with myRules := newRules } m.myRules.length

end FilterManager

/-! ## Loading -/

def loadRule (plugins : List ProtocolPlugin) (conf : IniFile) (i : ℕ) : Option FilterRule := do
  let key ← sprintfKey i enabledField
  let isEnabled := getBool conf key false
  let key ← sprintfKey i protocolField
  let protocolId := protocolIdFromString plugins (getString conf key [])
  let key ← sprintfKey i eventsField
  let eventMask := UInt64.ofNat (getULong conf key 0)
  let key ← sprintfKey i expressionField
  let expression := getString conf key []
  let key ← sprintfKey i actionField
  some ⟨isEnabled, protocolId, eventMask, expression, getInt conf key 0⟩

/-- The rules from number `i` on, with the number of those that are left. -/
def loadRulesFrom (plugins : List ProtocolPlugin) (conf : IniFile) :
    ℕ → ℕ → Option (List FilterRule)
  | 0, _ => some []
  | left + 1, i => do
    let rule ← loadRule plugins conf i
    let rules ← loadRulesFrom plugins conf left (i + 1)
    some (rule :: rules)

/-- `FilterManager::initialize` -/
def FilterManager.initializeRules (plugins : List ProtocolPlugin) (m : FilterManager) :
    Option FilterManager :=
  match ConfFile.loadFile (ConfFile.opened m.disk) with
  -- Failed to read configuration, setup defaults
  | (false, _) => saveRules { m with myRules := getDefaultRules } 0
  | (true, conf) => do
    let ini := (setSection conf.ini eventfilter true).2
    let rules ← loadRulesFrom plugins ini (getInt ini numRules 0).toNat 1
    some { m with myRules := m.myRules ++ rules }

/-! ## What is claimed of them -/

/-- **Rules that are set are those of a new manager that loads the file.** -/
def RestoresRules (plugins : List ProtocolPlugin) (m : FilterManager)
    (newRules : List FilterRule) : Prop :=
  ∃ m' r, m.setRules newRules = some m' ∧
    FilterManager.initializeRules plugins ⟨[], m'.disk⟩ = some r ∧ r.myRules = newRules

/-- The plugin goes by the name. -/
def GoesBy (s : List Char) (p : ProtocolPlugin) : Prop :=
  iequals s p.name = true ∨ s = protocolIdToString p.protocolId

instance (s : List Char) (p : ProtocolPlugin) : Decidable (GoesBy s p) :=
  inferInstanceAs (Decidable (_ ∨ _))

/-- The names of the protocols that are always known. -/
def WellKnown (s : List Char) : Prop :=
  (iequals s ['I', 'C', 'Q'] ∨ s = ['I', 'C', 'Q', '_'] ∨ s = ['L', 'i', 'c', 'q']) ∨
    (iequals s ['M', 'S', 'N'] ∨ s = ['M', 'S', 'N', '_']) ∨
      (iequals s ['J', 'a', 'b', 'b', 'e', 'r'] ∨ s = ['X', 'M', 'P', 'P'])

instance (s : List Char) : Decidable (WellKnown s) :=
  inferInstanceAs (Decidable ((_ ∨ _ ∨ _) ∨ (_ ∨ _) ∨ _ ∨ _))

/-- **The name of the protocol names no other one**: it is one that is always known, or the first
plugin that goes by its name is its own; for all protocols no plugin goes by the empty name. -/
def Recognised (plugins : List ProtocolPlugin) (protocolId : ℕ) : Prop :=
  protocolId ∈ [icqPpid, msnPpid, jabberPpid] ∨
    ¬ WellKnown (protocolText protocolId) ∧
      ((plugins.find? fun p => GoesBy (protocolText protocolId) p).map
        ProtocolPlugin.protocolId).getD 0 = protocolId

instance (plugins : List ProtocolPlugin) (protocolId : ℕ) :
    Decidable (Recognised plugins protocolId) :=
  inferInstanceAs (Decidable (_ ∨ ¬ _ ∧ _))

/-! ## The names of the parameters -/

def ruleFields : List (List Char) :=
  [enabledField, protocolField, eventsField, expressionField, actionField]

theorem ruleFields_valid : ∀ f ∈ ruleFields, f.all keyChar = true := by decide

variable {field : List Char} {i left : ℕ} {e : Entry}

theorem ruleKey_valid (i : ℕ) (h : field.all keyChar = true) :
    (ruleKey i field).all keyChar = true := by
  have hfield : ('.' :: field).all keyChar = true := by rw [all_cons, h]; decide
  rw [ruleKey, all_append, all_append, decimal_all_keyChar, hfield]
  decide

/-- **The number and the field of a parameter.** -/
theorem ruleKey_inj {j : ℕ} {f g : List Char} (h : ruleKey i f = ruleKey j g) : i = j ∧ f = g := by
  rw [ruleKey, ruleKey, append_assoc, append_assoc, append_cancel_left_eq] at h
  obtain ⟨hnum, hfield⟩ := append_nl_inj (dot_notMem_decimal i) (dot_notMem_decimal j) h
  exact ⟨decimal_injective hnum, hfield⟩

theorem numRules_ne (i : ℕ) (field : List Char) : numRules ≠ ruleKey i field := by
  intro h
  have hhead : some 'N' = some 'R' := congrArg head? h
  exact absurd hhead (by decide)

theorem length_ruleKey (i : ℕ) (field : List Char) :
    (ruleKey i field).length = (decimal i).length + field.length + 5 := by
  rw [ruleKey, length_append, length_append, length_cons, length_cons,
    length_cons, length_cons, length_cons, length_nil]
  omega

theorem length_decimal_le_iff {k : ℕ} (hk : 0 < k) : (decimal i).length ≤ k ↔ i < 10 ^ k :=
  Nat.length_toDigits_le_iff (by decide) hk

/-- **Names with four digits fit.** -/
theorem sprintfKey_eq (hi : i < 10000) (h : field ∈ ruleFields) :
    sprintfKey i field = some (ruleKey i field) := by
  have hfield : ∀ f ∈ ruleFields, f.length ≤ 10 := by decide
  have hdigits := (length_decimal_le_iff (by decide : 0 < 4)).mpr hi
  have hlength := hfield field h
  rw [sprintfKey, if_pos]
  rw [length_ruleKey]
  omega

/-- …and the longest does not with five. -/
theorem sprintfKey_expression (hi : ¬ i < 10000) : sprintfKey i expressionField = none := by
  have hdigits := mt (length_decimal_le_iff (by decide : 0 < 4)).mp hi
  have hlength : expressionField.length = 10 := rfl
  rw [sprintfKey, if_neg]
  rw [length_ruleKey]
  omega

/-! ## What is saved -/

/-- The parameters of a rule. -/
def ruleEntries (i : ℕ) (rule : FilterRule) : List Entry :=
  [(ruleKey i enabledField, boolText rule.isEnabled),
    (ruleKey i protocolField, protocolText rule.protocolId),
    (ruleKey i eventsField, decimal rule.eventMask.toNat),
    (ruleKey i expressionField, rule.expression), (ruleKey i actionField, decimalInt rule.action)]

/-- The parameters of the rules after number `i`. -/
def rulesEntries : ℕ → List FilterRule → List Entry
  | _, [] => []
  | i, rule :: rules => ruleEntries (i + 1) rule ++ rulesEntries (i + 1) rules

/-- All that is set. -/
def savedRules (rules : List FilterRule) : List Entry :=
  (numRules, decimal rules.length) :: rulesEntries 0 rules

theorem setField_eq (hi : i < 10000) (h : field ∈ ruleFields)
    (value : List Char) (conf : IniFile) :
    setField i field value conf
      = (set conf (ruleKey i field) value).bind fun r => some r.2 := by
  rw [setField, sprintfKey_eq hi h, bind_eq_bind, bind_some]
  rfl

theorem saveRule_eq (hi : i < 10000) (rule : FilterRule) (conf : IniFile) :
    saveRule i rule conf = setAll conf (ruleEntries i rule) := by
  have hfields : enabledField ∈ ruleFields ∧ protocolField ∈ ruleFields ∧ eventsField ∈ ruleFields ∧
      expressionField ∈ ruleFields ∧ actionField ∈ ruleFields := by decide
  simp only [saveRule, setField_eq hi hfields.1, setField_eq hi hfields.2.1,
    setField_eq hi hfields.2.2.1, setField_eq hi hfields.2.2.2.1, setField_eq hi hfields.2.2.2.2,
    ruleEntries, setAll, bind_eq_bind, bind_assoc, bind_some]

theorem saveRule_none (hi : ¬ i < 10000) (rule : FilterRule) (conf : IniFile) :
    saveRule i rule conf = none := by
  simp only [saveRule, setField, sprintfKey_expression hi, bind_eq_bind, bind_none,
    bind_fun_none]

theorem saveRulesFrom_eq {rules : List FilterRule} (h : i + rules.length < 10000)
    (conf : IniFile) : saveRulesFrom i rules conf = setAll conf (rulesEntries i rules) := by
  induction rules generalizing i conf with
  | nil => rfl
  | cons rule rules ih =>
    rw [length_cons] at h
    have hrest : ∀ conf, saveRulesFrom (i + 1) rules conf
        = setAll conf (rulesEntries (i + 1) rules) := fun conf => ih (by omega) conf
    rw [saveRulesFrom, saveRule_eq (by omega), rulesEntries, setAll_append]
    simp only [hrest, bind_eq_bind]

theorem saveRulesFrom_none {rules : List FilterRule} (hi : i < 10000)
    (h : ¬ i + rules.length < 10000) (conf : IniFile) : saveRulesFrom i rules conf = none := by
  induction rules generalizing i conf with
  | nil => exact absurd hi h
  | cons rule rules ih =>
    rw [length_cons] at h
    rw [saveRulesFrom]
    by_cases hnext : i + 1 < 10000
    · have hrest : ∀ conf, saveRulesFrom (i + 1) rules conf = none :=
        fun conf => ih hnext (by omega) conf
      simp only [hrest, bind_eq_bind, bind_fun_none]
    · rw [saveRule_none hnext]
      rfl

/-! ## What is removed -/

/-- The names of the parameters of a rule. -/
def ruleKeys (i : ℕ) : List (List Char) := ruleFields.map (ruleKey i)

/-- The names for as many rules after number `i`. -/
def rulesKeys : ℕ → ℕ → List (List Char)
  | 0, _ => []
  | left + 1, i => ruleKeys (i + 1) ++ rulesKeys left (i + 1)

theorem mem_ruleKeys {key : List Char} (h : key ∈ ruleKeys i) :
    ∃ f ∈ ruleFields, key = ruleKey i f := by
  obtain ⟨f, hf, rfl⟩ := mem_map.mp h
  exact ⟨f, hf, rfl⟩

theorem mem_rulesKeys {key : List Char} (h : key ∈ rulesKeys left i) :
    ∃ j, i < j ∧ ∃ f ∈ ruleFields, key = ruleKey j f := by
  induction left generalizing i with
  | zero => exact absurd h not_mem_nil
  | succ left ih =>
    rcases mem_append.mp h with h | h
    · exact ⟨i + 1, Nat.lt_succ_self i, mem_ruleKeys h⟩
    · obtain ⟨j, hj, hkey⟩ := ih h
      exact ⟨j, by omega, hkey⟩

theorem unsetField_eq (hi : i < 10000) (h : field ∈ ruleFields)
    (conf : IniFile) : unsetField i field conf = some (unset conf (ruleKey i field)).2 := by
  rw [unsetField, sprintfKey_eq hi h]
  rfl

theorem unsetRule_eq (hi : i < 10000) (conf : IniFile) :
    unsetRule i conf = some (unsetAll conf (ruleKeys i)) := by
  have hfields : enabledField ∈ ruleFields ∧ protocolField ∈ ruleFields ∧ eventsField ∈ ruleFields ∧
      expressionField ∈ ruleFields ∧ actionField ∈ ruleFields := by decide
  simp only [unsetRule, unsetField_eq hi hfields.1, unsetField_eq hi hfields.2.1,
    unsetField_eq hi hfields.2.2.1, unsetField_eq hi hfields.2.2.2.1,
    unsetField_eq hi hfields.2.2.2.2, bind_eq_bind, bind_some]
  rfl

theorem unsetRule_none (hi : ¬ i < 10000) (conf : IniFile) : unsetRule i conf = none := by
  simp only [unsetRule, unsetField, sprintfKey_expression hi, bind_eq_bind, bind_none,
    bind_fun_none]

theorem unsetRules_eq (h : i + left < 10000) (conf : IniFile) :
    unsetRules left i conf = some (unsetAll conf (rulesKeys left i)) := by
  induction left generalizing i conf with
  | zero => rfl
  | succ left ih =>
    rw [unsetRules, unsetRule_eq (by omega), rulesKeys]
    simp only [bind_eq_bind, bind_some]
    rw [ih (by omega)]
    simp only [unsetAll, foldl_append]

theorem unsetRules_none (hi : i < 10000) (h : ¬ i + left < 10000) (conf : IniFile) :
    unsetRules left i conf = none := by
  induction left generalizing i conf with
  | zero => exact absurd hi h
  | succ left ih =>
    rw [unsetRules]
    by_cases hnext : i + 1 < 10000
    · have hrest : ∀ conf, unsetRules left (i + 1) conf = none :=
        fun conf => ih hnext (by omega) conf
      simp only [hrest, bind_eq_bind, bind_fun_none]
    · rw [unsetRule_none hnext]
      rfl

/-! ## The saved file -/

theorem key_of_mem_ruleEntries {rule : FilterRule}
    (h : e ∈ ruleEntries i rule) : ∃ f ∈ ruleFields, e.1 = ruleKey i f := by
  simp only [ruleEntries, mem_cons, not_mem_nil, or_false] at h
  rcases h with rfl | rfl | rfl | rfl | rfl
  · exact ⟨enabledField, by decide, rfl⟩
  · exact ⟨protocolField, by decide, rfl⟩
  · exact ⟨eventsField, by decide, rfl⟩
  · exact ⟨expressionField, by decide, rfl⟩
  · exact ⟨actionField, by decide, rfl⟩

/-- A parameter of a rule has one value. -/
theorem ruleEntries_unique {rule : FilterRule} {e' : Entry} (h : e ∈ ruleEntries i rule)
    (h' : e' ∈ ruleEntries i rule) (hkey : e.1 = e'.1) : e = e' := by
  have hnodup : ((ruleEntries i rule).map Prod.fst).Nodup := by
    have hfields : ruleFields.Nodup := by decide
    have hkeys : (ruleFields.map (ruleKey i)).Nodup :=
      hfields.map fun f g hfg => (ruleKey_inj hfg).2
    exact hkeys
  exact inj_on_of_nodup_map hnodup h h' hkey

theorem mem_rulesEntries {rules : List FilterRule} :
    e ∈ rulesEntries i rules ↔
      ∃ j rule, rules[j]? = some rule ∧ e ∈ ruleEntries (i + 1 + j) rule := by
  induction rules generalizing i with
  | nil => simp [rulesEntries]
  | cons rule rules ih =>
    rw [rulesEntries, mem_append, ih]
    constructor
    · rintro (h | ⟨j, r, hj, h⟩)
      · exact ⟨0, rule, rfl, h⟩
      · exact ⟨j + 1, r, hj, by rwa [Nat.add_right_comm (i + 1) 1 j] at h⟩
    · rintro ⟨j, r, hj, h⟩
      cases j with
      | zero =>
        obtain rfl : rule = r := some.inj hj
        exact Or.inl h
      | succ j => exact Or.inr ⟨j, r, hj, by rwa [Nat.add_right_comm (i + 1) 1 j]⟩

variable {rules : List FilterRule}

/-- **A parameter that is saved has one value.** -/
theorem savedRules_unique {e' : Entry} (h : e ∈ savedRules rules) (h' : e' ∈ savedRules rules)
    (hkey : e.1 = e'.1) : e = e' := by
  rcases mem_cons.mp h with rfl | h
  · rcases mem_cons.mp h' with rfl | h'
    · rfl
    · obtain ⟨j, rule, -, hmem⟩ := mem_rulesEntries.mp h'
      obtain ⟨f, -, hf⟩ := key_of_mem_ruleEntries hmem
      exact absurd (hkey.trans hf) (numRules_ne _ f)
  · obtain ⟨j, rule, hj, hmem⟩ := mem_rulesEntries.mp h
    obtain ⟨f, -, hf⟩ := key_of_mem_ruleEntries hmem
    rcases mem_cons.mp h' with rfl | h'
    · exact absurd (hkey.symm.trans hf) (numRules_ne _ f)
    · obtain ⟨j', rule', hj', hmem'⟩ := mem_rulesEntries.mp h'
      obtain ⟨g, -, hg⟩ := key_of_mem_ruleEntries hmem'
      obtain rfl : j = j' := by
        have := (ruleKey_inj (hf.symm.trans (hkey.trans hg))).1
        omega
      obtain rfl : rule = rule' := some.inj (hj.symm.trans hj')
      exact ruleEntries_unique hmem hmem' hkey

theorem savedRules_valid (h : e ∈ savedRules rules) : e.1.all keyChar = true := by
  rcases mem_cons.mp h with rfl | h
  · exact (by decide : numRules.all keyChar = true)
  · obtain ⟨j, rule, -, hmem⟩ := mem_rulesEntries.mp h
    obtain ⟨f, hf, hkey⟩ := key_of_mem_ruleEntries hmem
    rw [hkey]
    exact ruleKey_valid _ (ruleFields_valid f hf)

theorem savedRules_ne (h : e ∈ savedRules rules) (hi : rules.length < i)
    (f : List Char) : e.1 ≠ ruleKey i f := by
  rcases mem_cons.mp h with rfl | h
  · exact numRules_ne i f
  · obtain ⟨j, rule, hj, hmem⟩ := mem_rulesEntries.mp h
    obtain ⟨g, -, hg⟩ := key_of_mem_ruleEntries hmem
    have hlt := (List.getElem?_eq_some_iff.mp hj).1
    intro heq
    have := (ruleKey_inj (hg.symm.trans heq)).1
    omega

theorem nul_notMem_decimalInt (z : ℤ) : Char.ofNat 0 ∉ decimalInt z := by
  cases z with
  | ofNat n => exact nul_notMem_decimal n
  | negSucc n =>
    rw [decimalInt, mem_cons, not_or]
    exact ⟨by decide, nul_notMem_decimal _⟩

theorem nul_notMem_boolText (b : Bool) : Char.ofNat 0 ∉ boolText b := by
  cases b
  · exact (by decide : Char.ofNat 0 ∉ ['0'])
  · exact (by decide : Char.ofNat 0 ∉ ['1'])

theorem nul_notMem_protocolText (protocolId : ℕ) : Char.ofNat 0 ∉ protocolText protocolId := by
  rw [protocolText]
  split_ifs
  · exact not_mem_nil
  · exact nul_notMem_cString _

theorem nul_notMem_savedRules (hnul : ∀ rule ∈ rules, Char.ofNat 0 ∉ rule.expression) :
    ∀ e ∈ savedRules rules, Char.ofNat 0 ∉ e.2 := by
  intro e he
  rcases mem_cons.mp he with rfl | he
  · exact nul_notMem_decimal _
  · obtain ⟨j, rule, hj, he⟩ := mem_rulesEntries.mp he
    simp only [ruleEntries, mem_cons, not_mem_nil, or_false] at he
    rcases he with rfl | rfl | rfl | rfl | rfl
    · exact nul_notMem_boolText rule.isEnabled
    · exact nul_notMem_protocolText rule.protocolId
    · exact nul_notMem_decimal _
    · exact hnul rule (mem_of_getElem? hj)
    · exact nul_notMem_decimalInt _

namespace FilterManager

variable {m : FilterManager} {oldCount : ℕ}

/-- What is loaded from the file. -/
def conf (m : FilterManager) : IniFile := (ConfFile.loadFile (ConfFile.opened m.disk)).2.ini

/-- **What the saved file says about the rules.** -/
theorem saveRules_spec (hm : Settled m.conf) (hcount : m.myRules.length < 10000)
    (hold : oldCount < 10000) (hnul : ∀ rule ∈ m.myRules, Char.ofNat 0 ∉ rule.expression) :
    ∃ m', m.saveRules oldCount = some m' ∧ m'.myRules = m.myRules ∧
      ∃ conf, ConfFile.loadFile (ConfFile.opened m'.disk) = (true, conf) ∧ Settled conf.ini ∧
        ∀ e ∈ savedRules m.myRules,
          get (setSection conf.ini eventfilter true).2 e.1 = some e.2 := by
  have hname : sectionName eventfilter ≠ [] := by decide
  obtain ⟨pre, hdr, tail, hstart⟩ := Holds.start hm hname
  obtain ⟨ini, hall, hheld⟩ := hstart.setAll_eq fun e he =>
    ⟨savedRules_valid he, nul_notMem_savedRules hnul e he⟩
  have hkeys : ∀ k ∈ rulesKeys (oldCount - m.myRules.length) m.myRules.length,
      k.all keyChar = true ∧ ∀ e ∈ savedRules m.myRules, e.1 ≠ k := by
    intro k hk
    obtain ⟨j, hj, f, hf, rfl⟩ := mem_rulesKeys hk
    exact ⟨ruleKey_valid j (ruleFields_valid f hf), fun e he => savedRules_ne he hj f⟩
  obtain ⟨conf, hload, hsettled, hget⟩ := Holds.write_spec (ConfFile.inSync_loadFile hm) hname hheld
    fun k hk => (hkeys k hk).1
  refine ⟨⟨m.myRules, (ConfFile.writeFile { (ConfFile.loadFile (ConfFile.opened m.disk)).2 with
    ini := unsetAll ini (rulesKeys (oldCount - m.myRules.length) m.myRules.length) }).2.disk⟩, ?_,
    rfl, conf, hload, hsettled, fun e he => ?_⟩
  · have hall' : ((set (setSection m.conf eventfilter true).2 numRules
        (decimal m.myRules.length)).bind fun r =>
          setAll r.2 (rulesEntries 0 m.myRules)) = some ini := hall
    obtain ⟨r, hr, hrest⟩ := bind_eq_some_iff.mp hall'
    have hset : set (setSection (ConfFile.loadFile (ConfFile.opened m.disk)).2.ini eventfilter
        true).2 numRules (decimal m.myRules.length) = some r := hr
    rw [saveRules]
    simp only [hset, bind_eq_bind, bind_some]
    rw [saveRulesFrom_eq (by omega), hrest, bind_some, unsetRules_eq (by omega),
      bind_some]
  · rw [hget e.1 (savedRules_valid he) fun hk => (hkeys e.1 hk).2 e he rfl]
    exact updateAll_of_mem (fun e h e' h' => savedRules_unique h h') he

theorem myRules_of_saveRules {m' : FilterManager} (h : m.saveRules oldCount = some m') :
    m'.myRules = m.myRules := by
  obtain ⟨r, -, h⟩ := bind_eq_some_iff.mp h
  obtain ⟨ini, -, h⟩ := bind_eq_some_iff.mp h
  obtain ⟨ini', -, h⟩ := bind_eq_some_iff.mp h
  cases h
  rfl

/-- Rules are saved only under numbers with four digits at most. -/
theorem lt_of_saveRules {m' : FilterManager} (h : m.saveRules oldCount = some m') :
    m.myRules.length < 10000 ∧ oldCount < 10000 := by
  obtain ⟨r, -, h⟩ := bind_eq_some_iff.mp h
  obtain ⟨ini, hsave, h⟩ := bind_eq_some_iff.mp h
  obtain ⟨ini', hunset, -⟩ := bind_eq_some_iff.mp h
  have hcount : m.myRules.length < 10000 := by
    by_contra hge
    rw [saveRulesFrom_none (by decide) (by omega)] at hsave
    exact nomatch hsave
  refine ⟨hcount, ?_⟩
  by_contra hge
  rw [unsetRules_none hcount (by omega)] at hunset
  exact nomatch hunset

end FilterManager

/-! ## What is loaded -/

section Loading

variable {plugins : List ProtocolPlugin} {conf : IniFile}

/-- A rule as it is rebuilt from its parameters. -/
def reread (plugins : List ProtocolPlugin) (rule : FilterRule) : FilterRule :=
  { rule with protocolId := protocolIdFromString plugins (protocolText rule.protocolId) }

variable {i : ℕ}

theorem loadRule_of_get {rule : FilterRule} (hi : i < 10000)
    (henabled : get conf (ruleKey i enabledField) = some (boolText rule.isEnabled))
    (hprotocol : get conf (ruleKey i protocolField) = some (protocolText rule.protocolId))
    (hevents : get conf (ruleKey i eventsField) = some (decimal rule.eventMask.toNat))
    (hexpression : get conf (ruleKey i expressionField) = some rule.expression)
    (haction : getInt conf (ruleKey i actionField) 0 = rule.action) :
    loadRule plugins conf i = some (reread plugins rule) := by
  have hfields : enabledField ∈ ruleFields ∧ protocolField ∈ ruleFields ∧ eventsField ∈ ruleFields ∧
      expressionField ∈ ruleFields ∧ actionField ∈ ruleFields := by decide
  have hmask : UInt64.ofNat rule.eventMask.toNat = rule.eventMask := UInt64.ofNat_toNat
  simp only [loadRule, sprintfKey_eq hi hfields.1, sprintfKey_eq hi hfields.2.1,
    sprintfKey_eq hi hfields.2.2.1, sprintfKey_eq hi hfields.2.2.2.1,
    sprintfKey_eq hi hfields.2.2.2.2, bind_eq_bind, bind_some,
    getBool_of_get henabled, getString_of_get hprotocol, getString_of_get hexpression,
    getULong_of_get hevents rule.eventMask.toNat_lt, haction, hmask]
  rfl

theorem loadRule_eq {rule : FilterRule} (hi : i < 10000)
    (haction : -2 ^ 31 ≤ rule.action ∧ rule.action < 2 ^ 31)
    (h : ∀ e ∈ ruleEntries i rule, get conf e.1 = some e.2) :
    loadRule plugins conf i = some (reread plugins rule) := by
  simp only [ruleEntries, mem_cons, not_mem_nil, or_false, forall_eq_or_imp,
    forall_eq] at h
  obtain ⟨henabled, hprotocol, hevents, hexpression, hact⟩ := h
  exact loadRule_of_get hi henabled hprotocol hevents hexpression
    (getInt_of_get hact haction.1 haction.2 0)

/-- **Rules are loaded one after the other.** -/
theorem loadRulesFrom_eq {f : FilterRule → FilterRule} {i : ℕ} {rules : List FilterRule}
    (h : ∀ j rule, rules[j]? = some rule → loadRule plugins conf (i + j) = some (f rule)) :
    loadRulesFrom plugins conf rules.length i = some (rules.map f) := by
  induction rules generalizing i with
  | nil => rfl
  | cons rule rules ih =>
    have hone := h 0 rule rfl
    have hrest := @ih (i + 1) fun j r hj => by
      rw [Nat.add_right_comm, Nat.add_assoc]
      exact h (j + 1) r hj
    rw [length_cons, loadRulesFrom, show i = i + 0 from rfl, hone]
    simp only [Nat.add_zero, bind_eq_bind, bind_some, hrest]
    rfl

/-- Rules are loaded under numbers with four digits only. -/
theorem lt_of_loadRulesFrom {left : ℕ} {rules : List FilterRule} (hi : i ≤ 10000)
    (h : loadRulesFrom plugins conf left i = some rules) : i + left ≤ 10000 := by
  induction left generalizing i rules with
  | zero => exact hi
  | succ left ih =>
    obtain ⟨rule, hone, h⟩ := bind_eq_some_iff.mp h
    obtain ⟨rest, hrest, -⟩ := bind_eq_some_iff.mp h
    have hlt : i < 10000 := by
      by_contra hge
      simp only [loadRule, sprintfKey_expression hge, bind_eq_bind, bind_none,
        bind_fun_none] at hone
      exact nomatch hone
    have := ih hlt hrest
    omega

/-- No expression that is loaded has a null character. -/
theorem nul_notMem_loadRulesFrom (hconf : Char.ofNat 0 ∉ conf.myConfigData) {left : ℕ}
    {rules : List FilterRule} (h : loadRulesFrom plugins conf left i = some rules) :
    ∀ rule ∈ rules, Char.ofNat 0 ∉ rule.expression := by
  induction left generalizing i rules with
  | zero =>
    cases h
    exact nofun
  | succ left ih =>
    obtain ⟨rule, hone, h⟩ := bind_eq_some_iff.mp h
    obtain ⟨rest, hrest, h⟩ := bind_eq_some_iff.mp h
    cases h
    intro r hr
    rcases mem_cons.mp hr with rfl | hr
    · simp only [loadRule, bind_eq_bind, bind_eq_some_iff] at hone
      obtain ⟨_, -, _, -, _, -, key, -, _, -, hone⟩ := hone
      cases hone
      exact nul_notMem_getString hconf key
    · exact ih hrest r hr

end Loading

/-! ## Protocols -/

section Protocols

variable {plugins : List ProtocolPlugin} {s : List Char}

theorem protocolIdFromString_mem (h : WellKnown s) :
    protocolIdFromString plugins s ∈ [icqPpid, msnPpid, jabberPpid] := by
  rw [protocolIdFromString]
  split_ifs with hicq hmsn hjabber
  · exact mem_cons_self
  · exact mem_cons_of_mem _ mem_cons_self
  · exact mem_cons_of_mem _ (mem_cons_of_mem _ mem_cons_self)
  · rcases h with h | h | h
    · exact absurd h hicq
    · exact absurd h hmsn
    · exact absurd h hjabber

theorem protocolIdFromString_eq (h : ¬ WellKnown s) : protocolIdFromString plugins s
    = ((plugins.find? fun p => GoesBy s p).map ProtocolPlugin.protocolId).getD 0 := by
  have hnames : (fun p : ProtocolPlugin => iequals s p.name || s == protocolIdToString p.protocolId)
      = fun p => decide (GoesBy s p) := by
    funext p
    rw [Bool.eq_iff_iff, decide_eq_true_eq, GoesBy, Bool.or_eq_true, beq_iff_eq]
  rw [protocolIdFromString, if_neg fun hicq => h (Or.inl hicq),
    if_neg fun hmsn => h (Or.inr (Or.inl hmsn)), if_neg fun hjabber => h (Or.inr (Or.inr hjabber)),
    hnames]
  cases plugins.find? fun p => decide (GoesBy s p) <;> rfl

/-- **The name of a protocol is read as the protocol** exactly when it is recognised. -/
theorem protocolIdFromString_protocolText_iff {protocolId : ℕ} :
    protocolIdFromString plugins (protocolText protocolId) = protocolId ↔
      Recognised plugins protocolId := by
  constructor
  · intro h
    by_cases hknown : WellKnown (protocolText protocolId)
    · exact Or.inl (h ▸ @protocolIdFromString_mem plugins _ hknown)
    · exact Or.inr ⟨hknown, (protocolIdFromString_eq hknown).symm.trans h⟩
  · rintro (h | ⟨hknown, h⟩)
    · simp only [mem_cons, not_mem_nil, or_false] at h
      rcases h with rfl | rfl | rfl
      · exact if_pos (by decide)
      · exact (if_neg (by decide)).trans (if_pos (by decide))
      · exact (if_neg (by decide)).trans ((if_neg (by decide)).trans (if_pos (by decide)))
    · exact (protocolIdFromString_eq hknown).trans h

theorem reread_eq_iff {rule : FilterRule} :
    reread plugins rule = rule ↔ Recognised plugins rule.protocolId := by
  obtain ⟨isEnabled, protocolId, eventMask, expression, action⟩ := rule
  rw [← protocolIdFromString_protocolText_iff, reread]
  simp

end Protocols

/-! ## The main result -/

section Main

variable {plugins : List ProtocolPlugin} {m : FilterManager} {newRules : List FilterRule}

/-- What a new manager reads from the file that is saved. -/
theorem setRules_spec (hm : Settled m.conf) (hcount : newRules.length < 10000)
    (hold : m.myRules.length < 10000)
    (hactions : ∀ rule ∈ newRules, -2 ^ 31 ≤ rule.action ∧ rule.action < 2 ^ 31)
    (hnul : ∀ rule ∈ newRules, Char.ofNat 0 ∉ rule.expression) :
    ∃ m', m.setRules newRules = some m' ∧ Settled m'.conf ∧
      FilterManager.initializeRules plugins ⟨[], m'.disk⟩
        = some ⟨newRules.map (reread plugins), m'.disk⟩ := by
  obtain ⟨m', hsave, -, conf, hfile, hsettled, hget⟩ :=
    @FilterManager.saveRules_spec { m with myRules := newRules } _ hm hcount hold hnul
  have hconf : m'.conf = conf.ini := by rw [FilterManager.conf, hfile]
  refine ⟨m', hsave, hconf ▸ hsettled, ?_⟩
  have hnum : getInt (setSection conf.ini eventfilter true).2 numRules 0 = newRules.length := by
    have := hget _ mem_cons_self
    rw [getInt, this, map_some, getD_some]
    exact atoi_decimal (by simpa using hcount.trans (by decide))
  have hload := @loadRulesFrom_eq plugins (setSection conf.ini eventfilter true).2
      (reread plugins) 1 newRules fun j rule hj => by
    have hlt := (List.getElem?_eq_some_iff.mp hj).1
    refine loadRule_eq (by omega) (hactions rule (mem_of_getElem? hj)) fun e he => ?_
    refine hget e (mem_cons_of_mem _ (mem_rulesEntries.mpr ⟨j, rule, hj, ?_⟩))
    rwa [Nat.zero_add]
  rw [FilterManager.initializeRules]
  simp only [hfile, hnum, Int.toNat_natCast, hload, bind_eq_bind, bind_some]
  rfl

/-- No rule that is loaded has a null character in its expression. -/
theorem nul_notMem_initializeRules {disk : Option (List Char)} {r : FilterManager}
    (h : FilterManager.initializeRules plugins ⟨[], disk⟩ = some r) :
    ∀ rule ∈ r.myRules, Char.ofNat 0 ∉ rule.expression := by
  cases disk with
  | none =>
    rw [FilterManager.myRules_of_saveRules h]
    decide +kernel
  | some text =>
    obtain ⟨rules, hload, h⟩ := bind_eq_some_iff.mp h
    cases h
    exact nul_notMem_loadRulesFrom (nul_notMem_setSection
      (ConfFile.nul_notMem_restart (ConfFile.opened (some text))) _ _) hload

/-- **The rules are restored exactly when** their numbers and those of the rules before have four
digits, no expression has a null character, and every protocol is recognised by its name. -/
theorem restoresRules_iff (hm : Settled m.conf)
    (hactions : ∀ rule ∈ newRules, -2 ^ 31 ≤ rule.action ∧ rule.action < 2 ^ 31) :
    RestoresRules plugins m newRules ↔ newRules.length < 10000 ∧ m.myRules.length < 10000 ∧
      ∀ rule ∈ newRules, Char.ofNat 0 ∉ rule.expression ∧ Recognised plugins rule.protocolId := by
  have hreread : newRules.map (reread plugins) = newRules ↔
      ∀ rule ∈ newRules, Recognised plugins rule.protocolId := by
    have hmap := @List.map_inj_left _ _ newRules (reread plugins) id
    rw [List.map_id] at hmap
    simp only [hmap, id, reread_eq_iff]
  constructor
  · rintro ⟨m', r, hset, hload, hrules⟩
    obtain ⟨hcount, hold⟩ := FilterManager.lt_of_saveRules hset
    have hnul : ∀ rule ∈ newRules, Char.ofNat 0 ∉ rule.expression :=
      hrules ▸ nul_notMem_initializeRules hload
    obtain ⟨m₁, hset₁, -, hload₁⟩ := @setRules_spec plugins _ _ hm hcount hold hactions hnul
    obtain rfl : m₁ = m' := Option.some.inj (hset₁.symm.trans hset)
    cases hload₁.symm.trans hload
    exact ⟨hcount, hold, fun rule hrule => ⟨hnul rule hrule, hreread.mp hrules rule hrule⟩⟩
  · rintro ⟨hcount, hold, hrules⟩
    obtain ⟨m', hset, -, hload⟩ := @setRules_spec plugins _ _ hm hcount hold hactions
      fun rule hrule => (hrules rule hrule).1
    exact ⟨m', _, hset, hload, hreread.mpr fun rule hrule => (hrules rule hrule).2⟩

/-- The rules of a new user are restored. -/
theorem restoresRules_default : RestoresRules [] ⟨[], none⟩ getDefaultRules :=
  (restoresRules_iff (by decide) (by decide)).mpr ⟨by decide, by decide, by decide +kernel⟩

/-- A rule for a protocol whose plugin is not loaded: "AIM_" as a number. -/
def unloadedRule : FilterRule := ⟨true, 0x41494D5F, 2, [], actionIgnore⟩

/-- It comes back as a rule for all protocols. -/
theorem not_restoresRules_unloaded : ¬ RestoresRules [] ⟨[], none⟩ [unloadedRule] := by
  rintro ⟨m', r, hset, hload, hrules⟩
  have hrun : ((FilterManager.setRules ⟨[], none⟩ [unloadedRule]).bind fun m' =>
      FilterManager.initializeRules [] ⟨[], m'.disk⟩).map (fun r =>
        r.myRules.map FilterRule.protocolId) = some [0] := by decide +kernel
  rw [hset, Option.bind_some, hload, Option.map_some, hrules] at hrun
  exact absurd hrun (by decide)

end Main

end Licq.Filter
