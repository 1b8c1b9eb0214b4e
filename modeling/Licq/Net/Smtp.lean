import Licq.Text.Translator
import Mathlib.Data.List.Basic

/-!
# Net/Smtp — what a mail server makes of the bytes behind `DATA`

The data of a mail is a list of lines.  They end with a carriage return and a line feed; many servers
take a line feed alone as well.  A line that is a dot ends the mail, and the dot that another line
starts with is dropped.

`intercalate_segments` says what is left of the ends of lines, `segments_append` how lines follow on
each other.
-/

namespace Smtp

open Licq (cr lf)

/-- The lines of some bytes, and what stands behind the last end of a line. -/
def segments (lenient : Bool) : List UInt8 → List (List UInt8)
  | [] => [[]]
  | [c] => if lenient = true ∧ c = lf then [[], []] else [[c]]
  | c :: d :: s =>
    if c = cr ∧ d = lf then [] :: segments lenient s
    else if lenient = true ∧ c = lf then [] :: segments lenient (d :: s)
    else (segments lenient (d :: s)).modifyHead (c :: ·)

/-- `.` -/
def dot : UInt8 := 0x2E

/-- The dot in front of a line is dropped. -/
def unstuff (line : List UInt8) : List UInt8 := if line.head? = some dot then line.tail else line

/-- A server receives one mail with these headers and this text, whose lines end with line feeds, and
nothing behind it. -/
def Receives (lenient : Bool) (sent : List UInt8) (headers : List (List UInt8))
    (text : List UInt8) : Prop :=
  ∃ content body, segments lenient sent = content ++ [[dot], []] ∧ [dot] ∉ content ∧
    content.map unstuff = headers ++ [] :: body ∧ [lf].intercalate body = text

/-- The bytes of a mail, with the dot that ends it. -/
def mail (headers : List (List UInt8)) (text : List UInt8) : List UInt8 :=
  headers.flatMap (· ++ [cr, lf]) ++ [cr, lf] ++ text ++ [cr, lf] ++ [dot] ++ [cr, lf]

/-- The ends of lines become line feeds. -/
def collapse : List UInt8 → List UInt8
  | [] => []
  | [c] => [c]
  | c :: d :: s => if c = cr ∧ d = lf then collapse (d :: s) else c :: collapse (d :: s)

/-! ## Lines -/

variable {lenient : Bool} {s t : List UInt8} {c : UInt8}

theorem segments_ne_nil : segments lenient s ≠ [] := by
  fun_induction segments lenient s with
  | case6 c d s _ _ ih => rwa [ne_eq, List.modifyHead_eq_nil_iff]
  | _ => exact List.cons_ne_nil _ _

/-- A byte that is no part of the end of a line belongs to the first one. -/
theorem segments_cons_of_ne (hcr : c ≠ cr) (hlf : c ≠ lf) :
    segments lenient (c :: s) = (segments lenient s).modifyHead (c :: ·) := by
  cases s with
  | nil => exact if_neg fun h => hlf h.2
  | cons d s => rw [segments, if_neg fun h => hcr h.1, if_neg fun h => hlf h.2]

theorem segments_cr_lf : segments lenient (cr :: lf :: s) = [] :: segments lenient s := by
  rw [segments, if_pos ⟨rfl, rfl⟩]

/-- **Lines follow on each other.** -/
theorem segments_append (s t : List UInt8) :
    segments lenient (s ++ cr :: lf :: t) = segments lenient s ++ segments lenient t := by
  fun_induction segments lenient s with
  | case1 => exact segments_cr_lf
  | case2 c h =>
    obtain ⟨rfl, rfl⟩ := h
    rw [List.singleton_append, segments, if_neg (by decide), if_pos ⟨rfl, rfl⟩, segments_cr_lf]
    rfl
  | case3 c h =>
    rw [List.singleton_append, segments, if_neg fun hcrlf => absurd hcrlf.2 (by decide), if_neg h,
      segments_cr_lf]
    rfl
  | case4 c d s h ih =>
    rw [List.cons_append, List.cons_append, segments, if_pos h, ih]
    rfl
  | case5 c d s h hlf ih =>
    rw [List.cons_append, List.cons_append, segments, if_neg h, if_pos hlf, ← List.cons_append, ih]
    rfl
  | case6 c d s h hlf ih =>
    rw [List.cons_append, List.cons_append, segments, if_neg h, if_neg hlf, ← List.cons_append, ih]
    cases hs : segments lenient (d :: s) with
    | nil => exact absurd hs segments_ne_nil
    | cons l ls => rfl

/-- Bytes without a line feed are no line yet. -/
theorem segments_of_notMem (h : lf ∉ s) : segments lenient s = [s] := by
  fun_induction segments lenient s with
  | case1 => rfl
  | case2 c hc => exact absurd (hc.2 ▸ List.mem_cons_self) h
  | case3 => rfl
  | case4 c d s hcd ih =>
    exact absurd (hcd.2 ▸ List.mem_cons_of_mem c List.mem_cons_self) h
  | case5 c d s _ hc ih => exact absurd (hc.2 ▸ List.mem_cons_self) h
  | case6 c d s _ _ ih =>
    rw [ih fun hmem => h (List.mem_cons_of_mem c hmem)]
    rfl

variable {l text : List UInt8} {ls headers : List (List UInt8)}

/-- **Where the lines are**: the first one in front, the others behind a line feed. -/
theorem segments_eq_cons
    (h : segments lenient s = l :: ls) : l <+: s ∧ ∀ l' ∈ ls, (lf :: l') <:+: s := by
  have hbehind : ∀ {t l₂ : List UInt8} {ls₂ : List (List UInt8)},
      (l₂ <+: t ∧ ∀ l' ∈ ls₂, (lf :: l') <:+: t) → ∀ l' ∈ l₂ :: ls₂, (lf :: l') <:+: lf :: t := by
    rintro t l₂ ls₂ ⟨hpre, hall⟩ l' hl'
    rcases List.mem_cons.mp hl' with rfl | hl'
    · exact ((List.prefix_cons_inj lf).mpr hpre).isInfix
    · exact (hall l' hl').trans (List.suffix_cons lf t).isInfix
  fun_induction segments lenient s generalizing l ls with
  | case1 =>
    cases h
    exact ⟨List.nil_prefix, fun l' hl' => by cases hl'⟩
  | case2 c hc =>
    cases h
    refine ⟨List.nil_prefix, fun l' hl' => ?_⟩
    rw [List.mem_singleton.mp hl', hc.2]
  | case3 c _ =>
    cases h
    exact ⟨List.prefix_rfl, fun l' hl' => by cases hl'⟩
  | case4 c d s hcd ih =>
    obtain ⟨rfl, hls⟩ := List.cons.inj h
    refine ⟨List.nil_prefix, fun l' hl' => ?_⟩
    cases hs : segments lenient s with
    | nil => exact absurd hs segments_ne_nil
    | cons l₂ ls₂ =>
      rw [hs] at hls
      rw [hcd.2]
      exact (hbehind (ih hs) l' (hls ▸ hl')).trans (List.suffix_cons c _).isInfix
  | case5 c d s _ hc ih =>
    obtain ⟨rfl, hls⟩ := List.cons.inj h
    refine ⟨List.nil_prefix, fun l' hl' => ?_⟩
    cases hs : segments lenient (d :: s) with
    | nil => exact absurd hs segments_ne_nil
    | cons l₂ ls₂ =>
      rw [hs] at hls
      rw [hc.2]
      exact hbehind (ih hs) l' (hls ▸ hl')
  | case6 c d s _ _ ih =>
    cases hs : segments lenient (d :: s) with
    | nil => exact absurd hs segments_ne_nil
    | cons l₂ ls₂ =>
      rw [hs] at h
      obtain ⟨rfl, rfl⟩ := List.cons.inj h
      obtain ⟨hpre, hall⟩ := ih hs
      exact ⟨(List.prefix_cons_inj c).mpr hpre, fun l' hl' =>
        (hall l' hl').trans (List.suffix_cons c _).isInfix⟩

/-- The bytes of the lines are bytes that were sent. -/
theorem mem_of_mem_segments (hl : l ∈ segments lenient s) (hc : c ∈ l) : c ∈ s := by
  cases hs : segments lenient s with
  | nil => exact absurd hs segments_ne_nil
  | cons l₂ ls₂ =>
    obtain ⟨hpre, hall⟩ := segments_eq_cons hs
    rw [hs] at hl
    rcases List.mem_cons.mp hl with rfl | hl
    · exact hpre.subset hc
    · exact (hall l hl).subset (List.mem_cons_of_mem lf hc)

theorem mem_modifyHead
    (hl : l ∈ ls.modifyHead (c :: ·)) : (∃ l', l = c :: l' ∧ l' ∈ ls) ∨ l ∈ ls := by
  cases ls with
  | nil => cases hl
  | cons l' ls =>
    rcases List.mem_cons.mp hl with rfl | hl
    · exact Or.inl ⟨l', rfl, List.mem_cons_self⟩
    · exact Or.inr (List.mem_cons_of_mem _ hl)

/-- A server that takes a line feed alone finds none in a line. -/
theorem lf_notMem_of_mem_segments (hl : l ∈ segments true s) : lf ∉ l := by
  fun_induction segments true s generalizing l with
  | case1 => rw [List.mem_singleton.mp hl]; exact List.not_mem_nil
  | case2 d h =>
    simp only [List.mem_cons, List.not_mem_nil, or_false, or_self] at hl
    rw [hl]
    exact List.not_mem_nil
  | case3 d h =>
    rw [List.mem_singleton.mp hl, List.mem_singleton]
    exact fun heq => h ⟨rfl, heq.symm⟩
  | case4 d e s h ih =>
    rcases List.mem_cons.mp hl with rfl | hl
    · exact List.not_mem_nil
    · exact ih hl
  | case5 d e s h hlf ih =>
    rcases List.mem_cons.mp hl with rfl | hl
    · exact List.not_mem_nil
    · exact ih hl
  | case6 d e s h hlf ih =>
    rcases mem_modifyHead hl with ⟨l', rfl, hl'⟩ | hl
    · rw [List.mem_cons]
      exact fun hmem => hmem.elim (fun heq => hlf ⟨rfl, heq.symm⟩) (ih hl')
    · exact ih hl

/-! ## The text -/

theorem intercalate_cons (h : ls ≠ []) :
    [lf].intercalate (l :: ls) = l ++ lf :: [lf].intercalate ls := by
  cases ls with
  | nil => exact absurd rfl h
  | cons l' ls => simp [List.intercalate]

theorem intercalate_modifyHead (h : ls ≠ []) :
    [lf].intercalate (ls.modifyHead (c :: ·)) = c :: [lf].intercalate ls := by
  cases ls with
  | nil => exact absurd rfl h
  | cons l ls =>
    cases ls with
    | nil => simp [List.intercalate]
    | cons l' ls =>
      rw [List.modifyHead_cons, intercalate_cons (List.cons_ne_nil _ _),
        intercalate_cons (List.cons_ne_nil _ _), List.cons_append]

theorem mem_intercalate (hc : c ∈ [lf].intercalate ls) : c = lf ∨ ∃ l ∈ ls, c ∈ l := by
  induction ls with
  | nil => cases hc
  | cons l ls ih =>
    by_cases hls : ls = []
    · subst hls
      exact Or.inr ⟨l, List.mem_cons_self, by simpa [List.intercalate] using hc⟩
    · rw [intercalate_cons hls, List.mem_append, List.mem_cons] at hc
      rcases hc with hc | hc | hc
      · exact Or.inr ⟨l, List.mem_cons_self, hc⟩
      · exact Or.inl hc
      · exact (ih hc).imp_right fun ⟨l', hl', hc⟩ => ⟨l', List.mem_cons_of_mem _ hl', hc⟩

theorem collapse_cons_of_ne (h : c ≠ cr) : collapse (c :: s) = c :: collapse s := by
  cases s with
  | nil => rfl
  | cons d s => exact if_neg fun hand => h hand.1

/-- **The text**, of lines that end with line feeds again, is the same for all servers. -/
theorem intercalate_segments : [lf].intercalate (segments lenient s) = collapse s := by
  fun_induction segments lenient s with
  | case1 => rfl
  | case2 c h =>
    obtain ⟨-, rfl⟩ := h
    rfl
  | case3 c h => simp [List.intercalate, collapse]
  | case4 c d s h ih =>
    rw [intercalate_cons segments_ne_nil, ih, collapse, if_pos h, h.2,
      collapse_cons_of_ne (by decide)]
    rfl
  | case5 c d s h hlf ih =>
    rw [intercalate_cons segments_ne_nil, ih, collapse, if_neg h, hlf.2]
    rfl
  | case6 c d s h hlf ih => rw [intercalate_modifyHead segments_ne_nil, ih, collapse, if_neg h]

/-- A text without dots in front of lines: no line starts with one. -/
theorem head?_ne_dot (hhead : s.head? ≠ some dot) (hlines : ¬ [lf, dot] <:+: s)
    (hl : l ∈ segments lenient s) : l.head? ≠ some dot := by
  intro hdot
  obtain ⟨l', rfl⟩ := List.head?_eq_some_iff.mp hdot
  cases hs : segments lenient s with
  | nil => exact absurd hs segments_ne_nil
  | cons l₂ ls₂ =>
    obtain ⟨hpre, hall⟩ := segments_eq_cons hs
    rw [hs] at hl
    rcases List.mem_cons.mp hl with rfl | hl
    · obtain ⟨t, rfl⟩ := hpre
      exact hhead rfl
    · exact hlines (List.IsPrefix.isInfix ⟨l', rfl⟩ |>.trans (hall _ hl))

theorem unstuff_eq_self (h : l.head? ≠ some dot) : unstuff l = l := if_neg h

theorem map_unstuff_eq_self (h : ∀ l ∈ ls, l.head? ≠ some dot) : ls.map unstuff = ls :=
  (List.map_congr_left fun l hl => unstuff_eq_self (h l hl)).trans (List.map_id ls)

/-- The text with the dots dropped, of lines of which only the first one may start with a dot. -/
theorem intercalate_unstuff (h : ¬ [lf, dot] <:+: s) :
    [lf].intercalate ((segments lenient s).map unstuff) =
      if s.head? = some dot then collapse s.tail else collapse s := by
  split_ifs with hdot
  · obtain ⟨t, rfl⟩ := List.head?_eq_some_iff.mp hdot
    rw [segments_cons_of_ne (by decide) (by decide), List.tail_cons, ← intercalate_segments]
    cases ht : segments lenient t with
    | nil => exact absurd ht segments_ne_nil
    | cons l ls =>
      have hall : ∀ l' ∈ ls, l'.head? ≠ some dot := by
        intro l' hl' hhead
        obtain ⟨u, rfl⟩ := List.head?_eq_some_iff.mp hhead
        have hinfix := ((segments_eq_cons ht).2 _ hl').trans (List.suffix_cons dot t).isInfix
        exact h (List.IsInfix.trans ⟨[], u, rfl⟩ hinfix)
      rw [List.modifyHead_cons, List.map_cons, map_unstuff_eq_self hall, unstuff,
        if_pos List.head?_cons]
      rfl
  · rw [map_unstuff_eq_self fun l hl => head?_ne_dot hdot h hl, intercalate_segments]

/-! ## A mail -/

theorem segments_flatMap (h : ∀ l ∈ headers, lf ∉ l)
    (t : List UInt8) : segments lenient (headers.flatMap (· ++ [cr, lf]) ++ t) =
      headers ++ segments lenient t := by
  induction headers with
  | nil => rfl
  | cons l headers ih =>
    obtain ⟨hl, hall⟩ := List.forall_mem_cons.mp h
    rw [List.flatMap_cons, List.append_assoc, List.append_assoc, List.cons_append,
      List.cons_append, List.nil_append, segments_append, segments_of_notMem hl, ih hall]
    rfl

theorem mem_mail (h : c ∈ mail headers t) : (∃ l ∈ headers, c ∈ l) ∨ c ∈ t ∨ c ∈ [cr, lf, dot] := by
  simp only [mail, List.mem_append, List.mem_flatMap, List.mem_cons, List.not_mem_nil,
    or_false] at h ⊢
  rcases h with ((((⟨l, hl, hc | hc⟩ | hc) | hc) | hc) | hc) | hc
  · exact .inl ⟨l, hl, hc⟩
  all_goals tauto

/-- **The lines of a mail.** -/
theorem segments_mail (h : ∀ l ∈ headers, lf ∉ l)
    (text : List UInt8) : segments lenient (mail headers text) =
      (headers ++ [] :: segments lenient text) ++ [[dot], []] := by
  have hdot : segments lenient ([dot] ++ [cr, lf]) = [[dot], []] :=
    (segments_append [dot] []).trans (by rw [segments_of_notMem (by decide)]; rfl)
  have htext : segments lenient (text ++ [cr, lf] ++ ([dot] ++ [cr, lf])) =
      segments lenient text ++ [[dot], []] := by
    rw [List.append_assoc, List.cons_append, List.cons_append, List.nil_append, segments_append,
      hdot]
  rw [mail, List.append_assoc, List.append_assoc, List.append_assoc, List.append_assoc,
    ← List.append_assoc text, segments_flatMap h, List.cons_append, List.cons_append,
    List.nil_append, segments_cr_lf, htext, List.append_assoc, List.cons_append]

/-! ## The line ends of `returnToDos` -/

open Licq (returnToDos)

theorem head?_returnToDos (s : List UInt8) : (returnToDos s).head? = s.head? := by
  cases s with
  | nil => rfl
  | cons c s =>
    rw [returnToDos]
    split_ifs <;> rfl

theorem collapse_cr (s : List UInt8) :
    collapse (cr :: s) = if s.head? = some lf then collapse s else cr :: collapse s := by
  cases s with
  | nil => rfl
  | cons d s => simp only [collapse, true_and, List.head?_cons, Option.some.injEq]

/-- Every line feed has a line feed or a carriage return behind it, and no carriage return in front
of it. -/
structure LineEnds (s : List UInt8) : Prop where
  behind : ∀ a b, s = a ++ lf :: b → b.head? = some lf ∨ b.head? = some cr
  front : ¬ [cr, lf] <:+: s

theorem lineEnds_cons_iff (c : UInt8) (s : List UInt8) : LineEnds (c :: s) ↔
    (c = lf → s.head? = some lf ∨ s.head? = some cr) ∧ (c = cr → s.head? ≠ some lf) ∧
      LineEnds s := by
  constructor
  · rintro ⟨hbehind, hfront⟩
    refine ⟨fun hc => hbehind [] s (by rw [hc]; rfl), fun hc hhead => ?_, fun a b h => ?_, fun h => ?_⟩
    · obtain ⟨t, rfl⟩ := List.head?_eq_some_iff.mp hhead
      exact hfront (List.IsPrefix.isInfix ⟨t, by rw [hc]; rfl⟩)
    · exact hbehind (c :: a) b (by rw [h]; rfl)
    · exact hfront (h.trans (List.suffix_cons c s).isInfix)
  · rintro ⟨hlf, hcr, hbehind, hfront⟩
    refine ⟨fun a b h => ?_, fun h => ?_⟩
    · cases a with
      | nil =>
        obtain ⟨rfl, rfl⟩ := List.cons.inj h
        exact hlf rfl
      | cons d a => exact hbehind a b (List.cons.inj h).2
    · rcases List.infix_cons_iff.mp h with hpre | hinfix
      · obtain ⟨t, ht⟩ := hpre
        obtain ⟨rfl, rfl⟩ := List.cons.inj ht
        exact hcr rfl rfl
      · exact hfront hinfix

/-- **The text comes back** when its line ends are such. -/
theorem collapse_returnToDos_iff (s : List UInt8) :
    collapse (returnToDos s) = s ↔ LineEnds s := by
  induction s with
  | nil => exact iff_of_true rfl ⟨fun a b h => by simp at h, by simp⟩
  | cons c s ih =>
    rw [lineEnds_cons_iff, ← ih, returnToDos]
    by_cases hlf : c = lf
    · subst hlf
      have hne : lf ≠ cr := by decide
      by_cases hhead : s.head? = some cr
      · rw [if_neg fun h => h.2 hhead, collapse_cons_of_ne hne]
        simp [hhead, hne]
      · rw [if_pos ⟨rfl, hhead⟩, collapse_cons_of_ne hne, collapse_cr, head?_returnToDos]
        split_ifs with hnext
        · simp [hnext, hne]
        · refine iff_of_false (fun h => hhead ?_) fun h => ?_
          · rw [← (List.cons.inj h).2]
            rfl
          · exact (h.1 rfl).elim hnext hhead
    · rw [if_neg fun h => hlf h.1]
      by_cases hcr : c = cr
      · subst hcr
        rw [collapse_cr, head?_returnToDos]
        split_ifs with hnext
        · refine iff_of_false (fun h => ?_) fun h => h.2.1 rfl hnext
          obtain ⟨t, rfl⟩ := List.head?_eq_some_iff.mp hnext
          have hhead : (collapse (returnToDos (lf :: t))).head? = some lf := by
            rw [returnToDos]
            split_ifs <;> rw [collapse_cons_of_ne (by decide)] <;> rfl
          rw [h] at hhead
          exact absurd (Option.some.inj hhead) (by decide)
        · simp [hlf, hnext]
      · rw [collapse_cons_of_ne hcr]
        simp [hlf, hcr]

/-- No line but the first one starts with a dot. -/
theorem not_lf_dot_infix_returnToDos (s : List UInt8) : ¬ [lf, dot] <:+: returnToDos s := by
  induction s with
  | nil => simp [returnToDos]
  | cons c s ih =>
    have hnext : ∀ {t : List UInt8}, ¬ [lf, dot] <:+: t → t.head? ≠ some dot ∨ c ≠ lf →
        ¬ [lf, dot] <:+: c :: t := by
      intro t ht hor h
      rcases List.infix_cons_iff.mp h with hpre | hinfix
      · obtain ⟨u, hu⟩ := hpre
        obtain ⟨rfl, rfl⟩ := List.cons.inj hu
        exact hor.elim (fun hdot => hdot rfl) fun hlf => hlf rfl
      · exact ht hinfix
    rw [returnToDos]
    split_ifs with hbare
    · refine hnext (fun h => ?_) (Or.inl (by simp; decide))
      rcases List.infix_cons_iff.mp h with hpre | hinfix
      · obtain ⟨u, hu⟩ := hpre
        exact absurd (List.cons.inj hu).1 (by decide)
      · exact ih hinfix
    · refine hnext ih ?_
      rw [head?_returnToDos]
      by_cases hlf : c = lf
      · left
        intro hdot
        exact hbare ⟨hlf, by rw [hdot]; decide⟩
      · exact Or.inr hlf

theorem count_returnToDos (h : c ≠ cr) (s : List UInt8) : (returnToDos s).count c = s.count c := by
  induction s with
  | nil => rfl
  | cons d s ih =>
    rw [returnToDos]
    split_ifs
    · rw [List.count_cons, List.count_cons_of_ne h.symm, ih, List.count_cons]
    · rw [List.count_cons, ih, List.count_cons]

theorem mem_returnToDos_iff (h : c ≠ cr) : c ∈ returnToDos s ↔ c ∈ s := by
  rw [← List.count_pos_iff, count_returnToDos h, List.count_pos_iff]

theorem count_collapse (h : c ≠ cr) (s : List UInt8) : (collapse s).count c = s.count c := by
  fun_induction collapse s with
  | case1 => rfl
  | case2 => rfl
  | case3 d e s hde ih => rw [ih, hde.1, List.count_cons_of_ne h.symm]
  | case4 d e s hde ih => rw [List.count_cons, ih, ← List.count_cons]

/-- No dot comes in front of a text. -/
theorem collapse_returnToDos_ne (s : List UInt8) : collapse (returnToDos s) ≠ dot :: s := by
  intro h
  have hcount := congrArg (List.count dot) h
  rw [count_collapse (by decide), count_returnToDos (by decide), List.count_cons_self] at hcount
  omega

/-! ## What is received -/

theorem Receives.mem {sent : List UInt8}
    (h : Receives lenient sent headers text) (hlf : c ≠ lf) :
    ((∃ l ∈ headers, c ∈ l) ∨ c ∈ text) → c ∈ sent := by
  obtain ⟨content, body, hsegments, -, hmap, rfl⟩ := h
  have hline : ∀ l ∈ headers ++ [] :: body, c ∈ l → c ∈ sent := by
    rw [← hmap]
    intro l hl hc
    obtain ⟨l', hl', rfl⟩ := List.mem_map.mp hl
    refine mem_of_mem_segments (hsegments ▸ List.mem_append_left _ hl') ?_
    rw [unstuff] at hc
    split_ifs at hc
    exacts [List.mem_of_mem_tail hc, hc]
  rintro (⟨l, hl, hc⟩ | hc)
  · exact hline l (List.mem_append_left _ hl) hc
  · obtain ⟨l, hl, hc⟩ := (mem_intercalate hc).resolve_left hlf
    exact hline l (List.mem_append_right _ (List.mem_cons_of_mem _ hl)) hc

/-- A server that takes a line feed alone receives none in a header. -/
theorem Receives.lf_notMem {sent : List UInt8}
    (h : Receives true sent headers text) : ∀ l ∈ headers, lf ∉ l := by
  obtain ⟨content, body, hsegments, -, hmap, -⟩ := h
  intro l hl hc
  have hmem : l ∈ content.map unstuff := hmap ▸ List.mem_append_left _ hl
  obtain ⟨l', hl', rfl⟩ := List.mem_map.mp hmem
  refine lf_notMem_of_mem_segments (hsegments ▸ List.mem_append_left _ hl') ?_
  rw [unstuff] at hc
  split_ifs at hc
  exacts [List.mem_of_mem_tail hc, hc]

/-- What comes in front of the last two lines. -/
theorem Receives.lines {hs : List (List UInt8)} {t : List UInt8}
    (h : Receives lenient (mail headers t) hs text) (hlf : ∀ l ∈ headers, lf ∉ l)
    (hdot : ∀ l ∈ headers, l.head? ≠ some dot) :
    ∃ body, headers ++ [] :: (segments lenient t).map unstuff = hs ++ [] :: body ∧
      [lf].intercalate body = text := by
  obtain ⟨content, body, hsegments, -, hmap, htext⟩ := h
  rw [segments_mail hlf] at hsegments
  obtain rfl := List.append_cancel_right hsegments
  rw [List.map_append, List.map_cons, map_unstuff_eq_self hdot] at hmap
  exact ⟨body, hmap, htext⟩

/-- **A mail is received** when its text does not start with a dot and has the right line ends. -/
theorem receives_mail_iff (hlf : ∀ l ∈ headers, lf ∉ l)
    (hdot : ∀ l ∈ headers, l.head? ≠ some dot) (text : List UInt8) :
    Receives lenient (mail headers (returnToDos text)) headers text ↔
      text.head? ≠ some dot ∧ LineEnds text := by
  have hnone := not_lf_dot_infix_returnToDos text
  constructor
  · intro h
    obtain ⟨body, hbody, htext⟩ := h.lines hlf hdot
    rw [← (List.cons.inj (List.append_cancel_left hbody)).2, intercalate_unstuff hnone,
      head?_returnToDos] at htext
    split_ifs at htext with hhead
    · -- The first dot is dropped, and no other one comes in its place.
      obtain ⟨t, ht⟩ := List.head?_eq_some_iff.mp ((head?_returnToDos text).trans hhead)
      refine absurd ?_ (collapse_returnToDos_ne text)
      rw [ht, List.tail_cons] at htext
      rw [ht, collapse_cons_of_ne (by decide), htext]
    · exact ⟨hhead, (collapse_returnToDos_iff text).mp htext⟩
  · rintro ⟨hhead, hends⟩
    have hlines : ∀ l ∈ segments lenient (returnToDos text), l.head? ≠ some dot := fun l hl =>
      head?_ne_dot (by rwa [head?_returnToDos]) hnone hl
    refine ⟨headers ++ [] :: segments lenient (returnToDos text),
      segments lenient (returnToDos text), segments_mail hlf _, fun hmem => ?_, ?_,
      intercalate_segments.trans ((collapse_returnToDos_iff text).mpr hends)⟩
    · rcases List.mem_append.mp hmem with hmem | hmem
      · exact hdot _ hmem rfl
      · rcases List.mem_cons.mp hmem with hnil | hmem
        · cases hnil
        · exact hlines _ hmem rfl
    · rw [List.map_append, List.map_cons, map_unstuff_eq_self hdot, map_unstuff_eq_self hlines]
      exact congrArg (headers ++ · :: _) (unstuff_eq_self (by decide))

end Smtp
