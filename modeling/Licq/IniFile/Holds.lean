import Mathlib.Logic.Function.Basic
import Licq.IniFile.KeyList

/-!
# IniFile/Holds — a section under edit as a map

While a caller reads parameters of a section and sets others, the section is a map from names to
values: `get` reads it (`Holds.get_eq`), `set` changes it at one name (`Holds.set_eq`), and when the
file is written and loaded again the map is still there (`Holds.write_spec`), but for parameters
that are removed last.
-/

namespace Licq

open Text

namespace IniFile

/-- The values of parameters. -/
abbrev ValueMap := List Char → Option (List Char)

variable {ini₀ ini : IniFile} {name key value : List Char} {pre tail : List Line} {hdr : Line}
  {values : ValueMap}

/-- **The selected section has the values**, in a text that survives loading. -/
def Holds (ini₀ : IniFile) (name : List Char) (pre : List Line) (hdr : Line) (tail : List Line)
    (values : ValueMap) (ini : IniFile) : Prop :=
  ∃ sel, Delimits ini name pre hdr sel tail ∧ Tracked ini₀ ini ∧
    (∀ l ∈ pre ++ hdr :: (sel ++ tail), Steady l) ∧
    ∀ key, key.all keyChar = true → (lookup key sel).map unescape = values key

/-- The values in the first section with the name. -/
def valuesOf (ini : IniFile) (name : List Char) : ValueMap := fun key =>
  (lookup key (ini.sectionLines name)).map unescape

/-- The values after more entries are set, in order. -/
def updateAll (es : List Entry) (values : ValueMap) : ValueMap :=
  es.foldl (fun values e => Function.update values e.1 (some e.2)) values

theorem updateAll_cons (e : Entry) (es : List Entry) (values : ValueMap) :
    updateAll (e :: es) values = updateAll es (Function.update values e.1 (some e.2)) := rfl

theorem updateAll_of_notMem {es : List Entry} (h : ∀ e ∈ es, e.1 ≠ key) :
    updateAll es values key = values key := by
  induction es generalizing values with
  | nil => rfl
  | cons e es ih =>
    rw [updateAll_cons, ih fun x hx => h x (List.mem_cons_of_mem e hx),
      Function.update_of_ne (h e List.mem_cons_self).symm]

/-- **A parameter that has one value among the entries has it.** -/
theorem updateAll_of_mem {es : List Entry} (h : ∀ e ∈ es, ∀ e' ∈ es, e.1 = e'.1 → e = e')
    {e : Entry} (he : e ∈ es) : updateAll es values e.1 = some e.2 := by
  induction es generalizing values with
  | nil => exact absurd he List.not_mem_nil
  | cons x es ih =>
    have htail : ∀ a ∈ es, ∀ b ∈ es, a.1 = b.1 → a = b := fun a ha b hb =>
      h a (List.mem_cons_of_mem x ha) b (List.mem_cons_of_mem x hb)
    rw [updateAll_cons]
    by_cases hmem : e ∈ es
    · exact ih htail hmem
    · obtain rfl : e = x := (List.mem_cons.mp he).resolve_right hmem
      rw [updateAll_of_notMem fun y hy heq => hmem
          (h y (List.mem_cons_of_mem e hy) e List.mem_cons_self heq ▸ hy),
        Function.update_self]

namespace Holds

/-- **Selecting a section** holds the values in it. -/
theorem start (h : Settled ini) {raw : List Char} (hraw : sectionName raw ≠ []) :
    ∃ pre hdr tail, Holds ini (sectionName raw) pre hdr tail (ini.valuesOf (sectionName raw))
      (setSection ini raw true).2 := by
  obtain ⟨ini', _, pre, hdr, sel, tail, hset, hall, hs, hd, htrack, hsteady⟩ :=
    @save_section ini h raw hraw [] fun e he => nomatch he
  obtain rfl : ini' = _ := Option.some.inj hall
  rw [hset]
  refine ⟨pre, hdr, tail, sel, hd, htrack, hsteady, fun key _ => ?_⟩
  rw [valuesOf, ← hs.selected, lookup_nonblank]

/-- **Reading a parameter.** -/
theorem get_eq (h : Holds ini₀ name pre hdr tail values ini) (hkey : key.all keyChar = true) :
    get ini key = values key := by
  obtain ⟨sel, hd, -, -, hvalues⟩ := h
  rw [hd.get_eq (notMem_of_all_keyChar hkey (by decide)) (head_ne_of_all_keyChar hkey),
    hvalues key hkey]

/-- **Setting a parameter.** -/
theorem set_eq (h : Holds ini₀ name pre hdr tail values ini) (hkey : key.all keyChar = true)
    (hvalue : Char.ofNat 0 ∉ value) : ∃ b ini', set ini key value = some (b, ini') ∧
      Holds ini₀ name pre hdr tail (Function.update values key (some value)) ini' := by
  obtain ⟨sel, hd, htrack, hsteady, hvalues⟩ := h
  obtain ⟨ini', hset, hd'⟩ := hd.set_eq_assign hkey value
  refine ⟨_, ini', hset, _, hd', htrack.trans (set_tracked hset), fun l hl => ?_, fun k hk => ?_⟩
  · simp only [List.mem_append, List.mem_cons] at hl hsteady
    rcases hl with hl | rfl | hl | hl
    · exact hsteady l (Or.inl hl)
    · exact hsteady l (Or.inr (Or.inl rfl))
    · rcases mem_assign hl with hl | rfl
      · exact hsteady l (Or.inr (Or.inr (Or.inl hl)))
      · exact steady_keyLine hkey (nul_notMem_escape hvalue)
    · exact hsteady l (Or.inr (Or.inr (Or.inr hl)))
  · by_cases heq : k = key
    · subst heq
      rw [lookup_assign_self, Option.map_some, unescape_escape, Function.update_self]
    · rw [lookup_assign_of_ne heq (eq_notMem_of_all_keyChar hk) (eq_notMem_of_all_keyChar hkey),
        hvalues k hk, Function.update_of_ne heq]

theorem setAll_eq (h : Holds ini₀ name pre hdr tail values ini) {es : List Entry}
    (hes : ∀ e ∈ es, e.1.all keyChar = true ∧ Char.ofNat 0 ∉ e.2) :
    ∃ ini', setAll ini es = some ini' ∧
      Holds ini₀ name pre hdr tail (updateAll es values) ini' := by
  induction es generalizing ini values with
  | nil => exact ⟨ini, rfl, h⟩
  | cons e es ih =>
    obtain ⟨hkey, hvalue⟩ := hes e List.mem_cons_self
    obtain ⟨b, ini₁, hset, h₁⟩ := h.set_eq hkey hvalue
    obtain ⟨ini', hall, h'⟩ := ih h₁ fun x hx => hes x (List.mem_cons_of_mem e hx)
    refine ⟨ini', ?_, h'⟩
    rw [setAll, hset, Option.bind_some, hall]

/-- **Removing parameters, writing the file and loading it again**: the other parameters have their
values. -/
theorem write_spec {f : ConfFile} {raw : List Char} (hf : f.InSync) (hraw : sectionName raw ≠ [])
    (h : Holds f.ini (sectionName raw) pre hdr tail values ini) {keys : List (List Char)}
    (hkeys : ∀ k ∈ keys, k.all keyChar = true) : ∃ conf,
      ConfFile.loadFile (ConfFile.opened
        (ConfFile.writeFile { f with ini := unsetAll ini keys }).2.disk) = (true, conf) ∧
      Settled conf.ini ∧ ∀ key, key.all keyChar = true → key ∉ keys →
        get (setSection conf.ini raw true).2 key = values key := by
  obtain ⟨sel, hd, htrack, hsteady, hvalues⟩ := h
  have hopen := hd.opens.unsetAll_eq fun k hk => notMem_of_all_keyChar (hkeys k hk) (by decide)
  have hsettled := hopen.settled_forgetAll hsteady
  obtain ⟨conf, hload, hdata⟩ :=
    ConfFile.exists_loadFile hf hsettled (htrack.trans (unsetAll_tracked ini keys))
  have hsettled' : Settled conf.ini := settled_congr hdata.symm hsettled
  refine ⟨conf, hload, hsettled', fun key hkey hne => ?_⟩
  have hlines : conf.ini.sectionLines (sectionName raw)
      = (Conf.ofLines (forgetAll keys (sel ++ tail))).preamble := by
    rw [← hopen.sectionLines_eq, sectionLines, sectionLines, textLines_congr hdata]
  rw [get_setSection hsettled'.1 hraw (notMem_of_all_keyChar hkey (by decide))
      (head_ne_of_all_keyChar hkey), hlines,
    Conf.lookup_preamble_forgetAll (eq_notMem_of_all_keyChar hkey) fun k hk =>
      ⟨hkeys k hk, fun heq => hne (heq ▸ hk)⟩,
    Conf.ofLines_append _ hd.tail_ends, Conf.ofLines_body hd.body, lookup_nonblank,
    hvalues key hkey]

end Holds

end IniFile

end Licq
