import Mathlib.Data.List.Basic

/-!
# Wire/Framing — streams cut into frames

A framing takes the first frame off a stream, if the whole of it is there, and what it takes does
not change when more arrives.  Taking frames for as long as there is one (`frames`) then does not
depend on how a stream arrives: cutting what came first and later what was left over with what
came then is cutting it all (`frames_append`).
-/

namespace Wire

/-- A way to take the first frame off a stream. -/
structure Framing (α β : Type*) where
  next : List α → Option (β × List α)
  shrinks : ∀ {q b r}, next q = some (b, r) → r.length < q.length
  stable : ∀ {q b r} (x : List α), next q = some (b, r) → next (q ++ x) = some (b, r ++ x)

namespace Framing

variable {α β : Type*} (F : Framing α β)

/-- All the frames of a stream, and what is left over. -/
def frames (q : List α) : List β × List α :=
  match _ : F.next q with
  | none => ([], q)
  | some (b, r) => (b :: (frames r).1, (frames r).2)
termination_by q.length
decreasing_by
  all_goals exact F.shrinks ‹_›

variable {F}

theorem frames_of_none {q : List α} (h : F.next q = none) : F.frames q = ([], q) := by
  rw [frames]
  split
  · rfl
  · rename_i hsome
    rw [h] at hsome
    cases hsome

theorem frames_of_some {q r : List α} {b : β} (h : F.next q = some (b, r)) :
    F.frames q = (b :: (F.frames r).1, (F.frames r).2) := by
  rw [frames]
  split
  · rename_i hnone
    rw [h] at hnone
    cases hnone
  · rename_i hsome
    rw [h] at hsome
    cases hsome
    rfl

/-- No frame is left over. -/
theorem next_frames (q : List α) : F.next (F.frames q).2 = none := by
  induction hn : q.length using Nat.strongRecOn generalizing q with
  | _ n ih =>
    cases h : F.next q with
    | none => rw [frames_of_none h, h]
    | some frame =>
      obtain ⟨b, r⟩ := frame
      rw [frames_of_some h]
      exact ih r.length (hn ▸ F.shrinks h) r rfl

/-- **Cutting a stream that arrives in two parts.** -/
theorem frames_append (q x : List α) : F.frames (q ++ x) =
    ((F.frames q).1 ++ (F.frames ((F.frames q).2 ++ x)).1, (F.frames ((F.frames q).2 ++ x)).2) := by
  induction hn : q.length using Nat.strongRecOn generalizing q with
  | _ n ih =>
    cases h : F.next q with
    | none =>
      rw [frames_of_none h]
      rfl
    | some frame =>
      obtain ⟨b, r⟩ := frame
      rw [frames_of_some h, frames_of_some (F.stable x h), ih r.length (hn ▸ F.shrinks h) r rfl]
      rfl

/-! ## Terminated pieces -/

section Terminated

variable [DecidableEq α] {nl : α}

/-- The stream up to its first terminator. -/
def nextTerminated (nl : α) (q : List α) : Option (List α × List α) :=
  match q.findIdx? (· == nl) with
  | none => none
  | some i => some (q.take (i + 1), q.drop (i + 1))

theorem nextTerminated_eq_some {q f r : List α} (h : nextTerminated nl q = some (f, r)) :
    ∃ i, q.findIdx? (· == nl) = some i ∧ i < q.length ∧ f = q.take (i + 1) ∧
      r = q.drop (i + 1) := by
  rw [nextTerminated] at h
  split at h
  · cases h
  · rename_i i hfind
    obtain ⟨hi, -, -⟩ := List.findIdx?_eq_some_iff_getElem.mp hfind
    cases h
    exact ⟨i, hfind, hi, rfl, rfl⟩

/-- The framing whose frames end in a terminator. -/
def terminated (nl : α) : Framing α (List α) where
  next := nextTerminated nl
  shrinks := by
    intro q f r h
    obtain ⟨i, -, hi, -, rfl⟩ := nextTerminated_eq_some h
    rw [List.length_drop]
    omega
  stable := by
    intro q f r x h
    obtain ⟨i, hfind, hi, rfl, rfl⟩ := nextTerminated_eq_some h
    rw [nextTerminated, List.findIdx?_append, hfind, Option.some_or]
    simp only
    rw [List.take_append_of_le_length hi, List.drop_append_of_le_length hi]

theorem terminated_next_of_notMem {q : List α} (h : nl ∉ q) : (terminated nl).next q = none := by
  have hfind : q.findIdx? (· == nl) = none :=
    List.findIdx?_eq_none_iff.mpr fun c hc => beq_eq_false_iff_ne.mpr fun heq => h (heq ▸ hc)
  simp only [terminated, nextTerminated, hfind]

theorem findIdx?_terminator {l : List α} (hl : nl ∉ l) (s : List α) :
    (l ++ nl :: s).findIdx? (· == nl) = some l.length := by
  have hfind : l.findIdx? (· == nl) = none :=
    List.findIdx?_eq_none_iff.mpr fun c hc => beq_eq_false_iff_ne.mpr fun heq => hl (heq ▸ hc)
  rw [List.findIdx?_append, hfind, Option.none_or, List.findIdx?_cons, beq_self_eq_true, if_pos rfl]
  simp only [Option.map_some, Nat.zero_add]

theorem terminated_next_append {l : List α} (hl : nl ∉ l) (s : List α) :
    (terminated nl).next (l ++ nl :: s) = some (l ++ [nl], s) := by
  simp only [terminated, nextTerminated, findIdx?_terminator hl]
  rw [List.append_cons l nl s]
  have hlen : l.length + 1 = (l ++ [nl]).length := by rw [List.length_append]; rfl
  rw [hlen, List.take_left, List.drop_left]

end Terminated

end Framing

end Wire
