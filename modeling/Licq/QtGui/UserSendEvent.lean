import Licq.Text.Printf
import Licq.Text.Translator
import Licq.Text.Utf8

/-!
# QtGui/UserSendEvent — a long message in parts

`send` cuts a message that is too long for the server.  It takes as many bytes of its DOS form as
the limit allows, turns them back into a text, and cuts this behind its last stop, line break or
space.

A part is whole and within the limit unless the limit falls between the two bytes of a line end, or
within a character of a window without such a place; a window is what the code takes from where the
last part ended.  The loop always ends (`isSome_send`), and the **main result** `splits_iff` says
which messages come out as they were.
-/

open Text (utf8 Decoder)

namespace Licq.QtGui

open List

/-! ## Cutting -/

/-- What `\s` matches. -/
structure Spaces where
  isSpace : Char → Bool
  replacement : isSpace Text.replacement = false

/-- A limit for the size of a message: `MaxMessageSize` or `MaxOfflineMessageSize`. -/
structure Limit where
  size : ℕ
  pos : 0 < size

def Limit.online : Limit := ⟨6800, by decide⟩

def Limit.offline : Limit := ⟨450, by decide⟩

/-- `QString::lastIndexOf` -/
def lastIndexOf (p : Char → Bool) : List Char → Option ℕ
  | [] => none
  | c :: s =>
    match lastIndexOf p s with
    | some i => some (i + 1)
    | none => if p c then some 0 else none

/-- What `[\.\n]` matches. -/
def isStop (c : Char) : Bool := c = '.' ∨ c = '\n'

/-- The place to cut at; slicing at position 0 would be useless. -/
def foundIndex (sp : Spaces) (message : List Char) : Option ℕ :=
  match lastIndexOf isStop message with
  | some (i + 1) => some (i + 1)
  | _ => lastIndexOf sp.isSpace message

/-- The message up to the place, if there is one. -/
def truncated (sp : Spaces) (message : List Char) : Option (List Char) :=
  match foundIndex sp message with
  | some (i + 1) => some (message.take (i + 2))
  | _ => none

/-- The part that is taken of the DOS form of what is left. -/
def nextPart (u : Decoder) (sp : Spaces) (limit : Limit) (left : List UInt8) : List UInt8 :=
  -- there is no null byte in what was made a C string before
  let messageRaw := returnToUnix (left.take limit.size)
  if limit.size < left.length then
    match truncated sp (u.fromUtf8 messageRaw) with
    | some message => cStr (utf8 message)
    | none => messageRaw
  else messageRaw

/-- The loop, with the part to send from a position on; none where its fuel runs out. -/
def sendLoop (part : ℕ → List UInt8) (total : ℕ) : ℕ → ℕ → Option (List (List UInt8))
  | 0, wholeMessagePos => if total ≤ wholeMessagePos then some [] else none
  | fuel + 1, wholeMessagePos =>
    if total ≤ wholeMessagePos then some []
    else
      let messageRaw := part wholeMessagePos
      (sendLoop part total fuel (wholeMessagePos + (returnToDos messageRaw).length)).map
        (messageRaw :: ·)

/-- `wholeMessageRaw` -/
def wholeMessageRaw (text : List Char) : List UInt8 := cStr (returnToDos (cStr (utf8 text)))

/-- `needsSplitting` -/
def needsSplitting (limit : Limit) (sendServer : Bool) (text : List Char) : Bool :=
  sendServer && limit.size < (wholeMessageRaw text).length

/-- The parts that `UserSendEvent::send` hands to `sendMessage`. -/
def send (u : Decoder) (sp : Spaces) (limit : Limit) (sendServer : Bool) (text : List Char) :
    Option (List (List UInt8)) :=
  let whole := wholeMessageRaw text
  let part := if needsSplitting limit sendServer text then
      fun pos => nextPart u sp limit (whole.drop pos)
    else fun _ => cStr (utf8 text)
  sendLoop part whole.length whole.length 0

/-! ## What is asked of the parts -/

/-- Whole characters, and within the limit where it applies. -/
def Whole (limit : Limit) (sendServer : Bool) (p : List UInt8) : Prop :=
  (∃ cs, p = utf8 cs) ∧ (sendServer = true → (returnToDos p).length ≤ limit.size)

/-- The loop ends, every part is whole, and together they are the message. -/
def Splits (u : Decoder) (sp : Spaces) (limit : Limit) (sendServer : Bool) (text : List Char) :
    Prop :=
  ∃ parts, send u sp limit sendServer text = some parts ∧ parts.flatten = utf8 text ∧
    ∀ p ∈ parts, Whole limit sendServer p

/-- The DOS form of a text. -/
def dos (s : List Char) : List UInt8 := dosBytes (utf8 s)

/-- The characters that fit in a number of bytes of the DOS form. -/
def fitting : ℕ → List Char → List Char
  | _, [] => []
  | n, c :: s => if (dos [c]).length ≤ n then c :: fitting (n - (dos [c]).length) s else []

/-- The characters that are read of a window, with the line end that the limit falls within. -/
def seen (limit : Limit) (left : List Char) : List Char :=
  let window := fitting limit.size left
  if (dos window).length < limit.size ∧ left[window.length]? = some '\n' then window ++ ['\n']
  else window

/-- What a window is cut to, if there is a place. -/
def cutOf (u : Decoder) (sp : Spaces) (limit : Limit) (left : List Char) : Option (List Char) :=
  truncated sp (u.fromUtf8 (utf8 (seen limit left)))

/-- The window up to the place to cut at is read as it was; without a place the limit falls behind a
character. -/
def WindowClean (u : Decoder) (sp : Spaces) (limit : Limit) (left : List Char) : Prop :=
  match cutOf u sp limit left with
  | some m => m <+: fitting limit.size left
  | none => (dos (fitting limit.size left)).length = limit.size

instance (u : Decoder) (sp : Spaces) (limit : Limit) (left : List Char) :
    Decidable (WindowClean u sp limit left) :=
  match h : cutOf u sp limit left with
  | some m => decidable_of_iff (m <+: fitting limit.size left) (by rw [WindowClean, h])
  | none => decidable_of_iff ((dos (fitting limit.size left)).length = limit.size)
      (by rw [WindowClean, h])

/-- The part of a clean window. -/
def piece (u : Decoder) (sp : Spaces) (limit : Limit) (left : List Char) : List Char :=
  (cutOf u sp limit left).getD (fitting limit.size left)

/-- All windows of a text are clean. -/
def Clean (u : Decoder) (sp : Spaces) (limit : Limit) : ℕ → List Char → Prop
  | 0, _ => True
  | n + 1, left => (dos left).length ≤ limit.size ∨
      (WindowClean u sp limit left ∧ Clean u sp limit n (left.drop (piece u sp limit left).length))

instance decidableClean (u : Decoder) (sp : Spaces) (limit : Limit) :
    ∀ n left, Decidable (Clean u sp limit n left)
  | 0, _ => .isTrue trivial
  | n + 1, left =>
    have := decidableClean u sp limit n (left.drop (piece u sp limit left).length)
    inferInstanceAs (Decidable (_ ∨ _))

/-! ## Places -/

theorem lastIndexOf_lt {p : Char → Bool} {s : List Char} {i : ℕ} (h : lastIndexOf p s = some i) :
    i < s.length := by
  induction s generalizing i with
  | nil => cases h
  | cons c s ih =>
    rw [lastIndexOf] at h
    cases hs : lastIndexOf p s with
    | some j =>
      rw [hs] at h
      cases h
      exact Nat.succ_lt_succ (ih hs)
    | none =>
      simp only [hs, Option.ite_none_right_eq_some] at h
      cases h.2
      exact Nat.succ_pos _

theorem lastIndexOf_append {p : Char → Bool} {r : List Char} (h : ∀ c ∈ r, p c = false)
    (s : List Char) : lastIndexOf p (s ++ r) = lastIndexOf p s := by
  induction s with
  | nil =>
    rw [nil_append, lastIndexOf]
    induction r with
    | nil => rfl
    | cons c r ih =>
      obtain ⟨hc, hr⟩ := forall_mem_cons.mp h
      rw [lastIndexOf, ih hr]
      simp only [hc, Bool.false_eq_true, if_false]
  | cons c s ih => rw [cons_append, lastIndexOf, lastIndexOf, ih]

variable {c : Char} {total pos fuel : ℕ} {sendServer : Bool} {text : List Char}
  {u : Decoder} {sp : Spaces} {limit : Limit} {s left : List Char}

/-- Replacement characters behind a text are no place to cut at. -/
theorem truncated_append {r : List Char} (h : ∀ c ∈ r, c = Text.replacement) (s : List Char) :
    truncated sp (s ++ r) = truncated sp s := by
  have hstop : ∀ c ∈ r, isStop c = false := fun c hc => by
    rw [h c hc]
    rfl
  have hspace : ∀ c ∈ r, sp.isSpace c = false := fun c hc => by rw [h c hc, sp.replacement]
  have hfound : foundIndex sp (s ++ r) = foundIndex sp s := by
    rw [foundIndex, foundIndex, lastIndexOf_append hstop, lastIndexOf_append hspace]
  have hlt : ∀ i, foundIndex sp s = some i → i < s.length := by
    intro i hi
    rw [foundIndex] at hi
    split at hi
    · rename_i j hj
      cases hi
      exact lastIndexOf_lt hj
    · exact lastIndexOf_lt hi
  rw [truncated, truncated, hfound]
  split
  · rename_i i hi
    rw [take_append_of_le_length (hlt _ hi)]
  · rfl

theorem truncated_spec {m : List Char} (h : truncated sp s = some m) : m <+: s ∧ m ≠ [] := by
  rw [truncated] at h
  split at h
  · rename_i i hi
    cases h
    refine ⟨List.take_prefix _ _, fun hnil => ?_⟩
    rcases take_eq_nil_iff.mp hnil with hzero | hs
    · exact absurd hzero (Nat.succ_ne_zero _)
    · subst hs
      cases hi
  · cases h

/-! ## The DOS form -/

theorem dos_append (a b : List Char) : dos (a ++ b) = dos a ++ dos b := by
  rw [dos, Text.utf8_append, dosBytes_append, dos, dos]

theorem dos_cons (c : Char) (s : List Char) : dos (c :: s) = dos [c] ++ dos s :=
  dos_append [c] s

theorem cr_notMem_utf8_iff : cr ∉ utf8 s ↔ '\r' ∉ s :=
  not_congr (Text.mem_utf8_iff (c := '\r') (by decide))

theorem nul_notMem_utf8_iff : 0 ∉ utf8 s ↔ '\x00' ∉ s :=
  not_congr (Text.mem_utf8_iff (c := '\x00') (by decide))

theorem cStr_utf8 (h : '\x00' ∉ s) : cStr (utf8 s) = utf8 s :=
  Text.cStr_eq_self_iff.mpr (nul_notMem_utf8_iff.mpr h)

theorem returnToDos_utf8 (h : '\r' ∉ s) : returnToDos (utf8 s) = dos s :=
  returnToDos_of_notMem (cr_notMem_utf8_iff.mpr h)

/-- The DOS form of a character: its own bytes, or the two of a line end. -/
theorem dos_singleton (h : c ≠ '\n') : dos [c] = String.utf8EncodeChar c := by
  have hlf : lf ∉ utf8 [c] := by
    rw [show lf = UInt8.ofNat '\n'.toNat from rfl, Text.mem_utf8_iff (by decide),
      mem_singleton]
    exact Ne.symm h
  rw [dos, dosBytes_of_notMem hlf, Text.utf8_cons, Text.utf8_nil, append_nil]

theorem dos_singleton_ne_nil (c : Char) : dos [c] ≠ [] := by
  by_cases h : c = '\n'
  · subst h
    exact cons_ne_nil lf [cr]
  · rw [dos_singleton h]
    exact String.utf8EncodeChar_ne_nil

theorem dos_eq_nil_iff : dos s = [] ↔ s = [] := by
  cases s with
  | nil => exact iff_of_true rfl rfl
  | cons c s =>
    rw [dos_cons]
    exact iff_of_false (fun h => dos_singleton_ne_nil c (append_eq_nil_iff.mp h).1)
      (cons_ne_nil c s)

/-! ## Windows -/

theorem fitting_isPrefix (n : ℕ) (s : List Char) : fitting n s <+: s := by
  induction s generalizing n with
  | nil => exact prefix_refl _
  | cons c s ih =>
    rw [fitting]
    split_ifs
    · exact (prefix_cons_inj c).mpr (ih _)
    · exact nil_prefix

theorem length_dos_fitting_le (n : ℕ) (s : List Char) : (dos (fitting n s)).length ≤ n := by
  induction s generalizing n with
  | nil => exact Nat.zero_le n
  | cons c s ih =>
    rw [fitting]
    split_ifs with h
    · have := ih (n - (dos [c]).length)
      rw [dos_cons, length_append]
      omega
    · exact Nat.zero_le n

/-- The character behind a window does not fit. -/
theorem lt_length_dos_fitting {n : ℕ} {s : List Char} (h : n < (dos s).length) :
    ∃ c rest, s = fitting n s ++ c :: rest ∧
      n < (dos (fitting n s)).length + (dos [c]).length := by
  induction s generalizing n with
  | nil => exact absurd h (Nat.not_lt_zero n)
  | cons c s ih =>
    rw [dos_cons, length_append] at h
    rw [fitting]
    split_ifs with hfit
    · obtain ⟨d, rest, heq, hlt⟩ := ih (n := n - (dos [c]).length) (by omega)
      refine ⟨d, rest, ?_, ?_⟩
      · rw [cons_append, ← heq]
      · rw [dos_cons, length_append]
        omega
    · refine ⟨c, s, rfl, ?_⟩
      rw [show dos [] = [] from rfl, length_nil]
      omega

theorem piece_isPrefix (h : WindowClean u sp limit left) :
    piece u sp limit left <+: fitting limit.size left := by
  rw [WindowClean] at h
  rw [piece]
  cases hcut : cutOf u sp limit left with
  | none => exact prefix_refl _
  | some m =>
    rw [hcut] at h
    exact h

theorem piece_ne_nil (h : WindowClean u sp limit left) : piece u sp limit left ≠ [] := by
  rw [WindowClean] at h
  rw [piece]
  cases hcut : cutOf u sp limit left with
  | some m => exact (truncated_spec hcut).2
  | none =>
    intro hnil
    rw [hcut, show fitting limit.size left = [] from hnil] at h
    exact absurd h limit.pos.ne

theorem length_dos_piece_le (h : WindowClean u sp limit left) :
    (dos (piece u sp limit left)).length ≤ limit.size := by
  obtain ⟨rest, hrest⟩ := piece_isPrefix h
  have hle := length_dos_fitting_le limit.size left
  rw [← hrest, dos_append, length_append] at hle
  omega

/-- **What is read of a window**, with a part of a character behind it. -/
theorem returnToUnix_window (hcr : '\r' ∉ left) (hlt : limit.size < (dos left).length) :
    ∃ c t, Text.Cut c t ∧
      returnToUnix ((dos left).take limit.size) = utf8 (seen limit left) ++ t ∧
      ((dos (fitting limit.size left)).length = limit.size →
        seen limit left = fitting limit.size left ∧ t = []) ∧
      ((dos (fitting limit.size left)).length ≠ limit.size →
        t ≠ [] ∨ limit.size < (dos (seen limit left)).length) := by
  obtain ⟨c, rest, hsplit, hover⟩ := lt_length_dos_fitting hlt
  have hfits := length_dos_fitting_le limit.size left
  rw [seen]
  generalize fitting limit.size left = s at *
  have hget : left[s.length]? = some c := by
    rw [hsplit, getElem?_append_right le_rfl, Nat.sub_self]
    rfl
  have hwindow : (dos left).take limit.size =
      dos s ++ (dos [c]).take (limit.size - (dos s).length) := by
    rw [hsplit, dos_append, dos_cons, take_append, take_of_length_le hfits,
      take_append_of_le_length (by omega)]
  rw [hsplit, mem_append, mem_cons, not_or, not_or] at hcr
  have hunix : ∀ {t : List UInt8}, cr ∉ t → returnToUnix (dos s ++ t) = utf8 s ++ t :=
    returnToUnix_dosBytes_append (cr_notMem_utf8_iff.mpr hcr.1)
  rw [hwindow, hget]
  by_cases hzero : (dos s).length = limit.size
  · -- the limit falls behind a character
    have hnot : ¬ ((dos s).length < limit.size ∧ some c = some '\n') := fun h => h.1.ne hzero
    refine ⟨c, [], Text.cut_nil c, ?_, fun _ => ⟨if_neg hnot, rfl⟩, fun h => absurd hzero h⟩
    rw [if_neg hnot, hzero, Nat.sub_self, take_zero, hunix not_mem_nil]
  · have hbefore : (dos s).length < limit.size := lt_of_le_of_ne hfits hzero
    by_cases hc : c = '\n'
    · -- within a line end
      subst hc
      have hdos : dos ['\n'] = [lf, cr] := rfl
      rw [hdos, length_cons, length_singleton] at hover
      refine ⟨'\n', [], Text.cut_nil _, ?_, fun h => absurd h hzero, fun _ => .inr ?_⟩
      · rw [hdos, show limit.size - (dos s).length = 1 by omega, if_pos ⟨hbefore, rfl⟩,
          show [lf, cr].take 1 = [lf] from rfl, hunix (by decide), Text.utf8_append,
          append_nil]
        rfl
      · rw [if_pos ⟨hbefore, rfl⟩, dos_append, hdos, length_append, length_cons,
          length_singleton]
        omega
    · have hdos := dos_singleton hc
      have hnot : ¬ ((dos s).length < limit.size ∧ some c = some '\n') :=
        fun h => hc (Option.some.inj h.2)
      have ht : Text.Cut c ((String.utf8EncodeChar c).take (limit.size - (dos s).length)) := by
        refine ⟨List.take_prefix _ _, fun heq => ?_⟩
        have hlen := congrArg List.length heq
        rw [length_take, ← hdos] at hlen
        omega
      refine ⟨c, _, ht, ?_, fun h => absurd h hzero, fun _ => .inl fun hnil => ?_⟩
      · rw [hdos, if_neg hnot]
        refine hunix fun hmem => ?_
        have hchar := Text.toNat_of_mem_utf8EncodeChar (by decide) (ht.1.mem hmem)
        exact hcr.2.1 (Char.toNat_inj.mp hchar.symm)
      · rcases take_eq_nil_iff.mp hnil with h | h
        · omega
        · exact String.utf8EncodeChar_ne_nil h

theorem mem_seen (hc : c ≠ '\n') (h : c ∈ seen limit left) : c ∈ left := by
  rw [seen] at h
  split_ifs at h
  · rcases mem_append.mp h with h | h
    · exact (fitting_isPrefix _ _).mem h
    · exact absurd (mem_singleton.mp h) hc
  · exact (fitting_isPrefix _ _).mem h

/-- **The part of one window.** -/
theorem nextPart_window (hnul : '\x00' ∉ left) (hlt : limit.size < (dos left).length)
    {t : List UInt8} (ht : Text.Cut c t)
    (hunix : returnToUnix ((dos left).take limit.size) = utf8 (seen limit left) ++ t) :
    nextPart u sp limit (dos left) =
      ((cutOf u sp limit left).map utf8).getD (utf8 (seen limit left) ++ t) := by
  obtain ⟨r, hr, hreplacement⟩ := u.fromUtf8_cut (seen limit left) c t ht
  rw [nextPart, if_pos hlt, hunix, hr, truncated_append hreplacement, cutOf]
  cases hcut : truncated sp (u.fromUtf8 (utf8 (seen limit left))) with
  | none => rfl
  | some m =>
    refine cStr_utf8 fun hmem => ?_
    suffices hseen : '\x00' ∈ seen limit left from hnul (mem_seen (by decide) hseen)
    rw [← Text.mem_utf8_iff (by decide)]
    exact u.mem_ascii _ _ (by decide) ((truncated_spec hcut).1.mem hmem)

/-- What begins a text and fits is within the window. -/
theorem prefix_fitting {m : List Char} (hm : m <+: left) (hle : (dos m).length ≤ limit.size)
    (hlt : limit.size < (dos left).length) : m <+: fitting limit.size left := by
  obtain ⟨c, rest, hsplit, hover⟩ := lt_length_dos_fitting hlt
  rcases prefix_or_prefix_of_prefix hm (fitting_isPrefix limit.size left) with h | ⟨d, hd⟩
  · exact h
  · cases d with
    | nil => exact ⟨[], by rw [append_nil, ← hd, append_nil]⟩
    | cons x d =>
      obtain ⟨e, he⟩ := hm
      rw [← hd, append_assoc, cons_append] at he
      obtain ⟨rfl, -⟩ := cons_eq_cons.mp (append_cancel_left (he.trans hsplit))
      rw [← hd, dos_append, dos_cons, length_append, length_append] at hle
      omega

variable (u sp) in
/-- **A clean window gives its piece**, and one that is not gives no part of the text that fits. -/
theorem nextPart_spec (hnul : '\x00' ∉ left) (hcr : '\r' ∉ left)
    (hlt : limit.size < (dos left).length) :
    (WindowClean u sp limit left →
      nextPart u sp limit (dos left) = utf8 (piece u sp limit left)) ∧
      (¬ WindowClean u sp limit left → ∀ cs, nextPart u sp limit (dos left) = utf8 cs →
        cs <+: left → limit.size < (dos cs).length) := by
  obtain ⟨c, t, ht, hunix, hwhole, hcut⟩ := returnToUnix_window hcr hlt
  rw [nextPart_window hnul hlt ht hunix, WindowClean, piece]
  cases hplace : cutOf u sp limit left with
  | some m =>
    refine ⟨fun _ => rfl, fun hnot cs hcs hpre => ?_⟩
    obtain rfl := Text.utf8_inj hcs
    exact Nat.lt_of_not_le fun hle => hnot (prefix_fitting hpre hle hlt)
  | none =>
    constructor
    · intro hlen
      obtain ⟨hseen, rfl⟩ := hwhole hlen
      rw [hseen]
      exact append_nil _
    · intro hnot cs hcs hpre
      have hraw : utf8 cs = utf8 (seen limit left) ++ t := hcs.symm
      rcases hcut hnot with hne | hover
      · exact absurd hraw (Text.utf8_ne_append ht hne cs)
      · obtain ⟨cs', rfl, -⟩ := Text.utf8_append_inj hraw
        rw [dos_append, length_append]
        omega

theorem notMem_of_isPrefix {a b : List Char} (h : a <+: b) (hb : c ∉ b) : c ∉ a :=
  fun hmem => hb (h.mem hmem)

/-! ## Runs -/

/-- The parts that a run still hands over make up what is left. -/
def Sound (limit : Limit) (left : List Char) (parts : Option (List (List UInt8))) : Prop :=
  ∃ ps, parts = some ps ∧ ps.flatten = utf8 left ∧ ∀ p ∈ ps, Whole limit true p

theorem whole_utf8 (h : '\r' ∉ s) (hle : (dos s).length ≤ limit.size) :
    Whole limit true (utf8 s) := by
  refine ⟨⟨s, rfl⟩, fun _ => ?_⟩
  rwa [returnToDos_utf8 h]

/-- A run goes on behind a part that is whole. -/
theorem sound_cons_iff {a b : List Char} (h : '\r' ∉ a) (hle : (dos a).length ≤ limit.size)
    (parts : Option (List (List UInt8))) :
    Sound limit (a ++ b) (parts.map (utf8 a :: ·)) ↔ Sound limit b parts := by
  constructor
  · rintro ⟨ps, hps, hflat, hwhole⟩
    obtain ⟨qs, rfl, rfl⟩ := Option.map_eq_some_iff.mp hps
    rw [flatten_cons, Text.utf8_append] at hflat
    exact ⟨qs, rfl, append_cancel_left hflat, (forall_mem_cons.mp hwhole).2⟩
  · rintro ⟨ps, rfl, hflat, hwhole⟩
    refine ⟨utf8 a :: ps, rfl, ?_, forall_mem_cons.mpr ⟨whole_utf8 h hle, hwhole⟩⟩
    rw [flatten_cons, hflat, Text.utf8_append]

theorem sendLoop_of_le {part : ℕ → List UInt8} (h : total ≤ pos) (fuel : ℕ) :
    sendLoop part total fuel pos = some [] := by
  cases fuel with
  | zero => exact if_pos h
  | succ fuel => exact if_pos h

/-- What fits is sent as it is. -/
theorem nextPart_of_le (hcr : '\r' ∉ left) (hle : (dos left).length ≤ limit.size) :
    nextPart u sp limit (dos left) = utf8 left := by
  have hunix : returnToUnix (dos left) = utf8 left := by
    have := returnToUnix_dosBytes_append (t := []) (cr_notMem_utf8_iff.mpr hcr) not_mem_nil
    rwa [append_nil, append_nil] at this
  rw [nextPart, take_of_length_le hle, if_neg hle.not_gt, hunix]

/-- **The loop from a place between two characters on.** -/
theorem sound_sendLoop_iff {whole : List UInt8} {n : ℕ} (hnul : '\x00' ∉ left)
    (hcr : '\r' ∉ left) (hn : left.length ≤ n) (hfuel : (dos left).length ≤ fuel)
    (hpos : pos + (dos left).length = whole.length) (hdrop : whole.drop pos = dos left) :
    Sound limit left (sendLoop (fun pos => nextPart u sp limit (whole.drop pos)) whole.length fuel
      pos) ↔ Clean u sp limit n left := by
  induction n generalizing left fuel pos with
  | zero =>
    obtain rfl := eq_nil_of_length_eq_zero (Nat.le_zero.mp hn)
    have hend : whole.length ≤ pos := hpos.ge
    rw [sendLoop_of_le hend]
    exact iff_of_true ⟨[], rfl, rfl, nofun⟩ trivial
  | succ n ih =>
    by_cases hnil : left = []
    · subst hnil
      have hend : whole.length ≤ pos := hpos.ge
      rw [sendLoop_of_le hend]
      exact iff_of_true ⟨[], rfl, rfl, nofun⟩
        (.inl (Nat.zero_le _))
    have hbytes := length_pos_iff.mpr (mt dos_eq_nil_iff.mp hnil)
    obtain ⟨fuel, rfl⟩ := Nat.exists_eq_succ_of_ne_zero (hbytes.trans_le hfuel).ne'
    rw [sendLoop, if_neg (by omega)]
    simp only [hdrop]
    rcases Nat.lt_or_ge limit.size (dos left).length with hlt | hle
    · obtain ⟨hclean, hunclean⟩ := nextPart_spec u sp hnul hcr hlt
      by_cases hwindow : WindowClean u sp limit left
      · obtain ⟨rest, hrest⟩ := (piece_isPrefix hwindow).trans (fitting_isPrefix limit.size left)
        have hne := piece_ne_nil hwindow
        have hle := length_dos_piece_le hwindow
        rw [Clean, or_iff_right hlt.not_ge, and_iff_right hwindow, hclean hwindow]
        generalize piece u sp limit left = a at *
        subst hrest
        rw [mem_append, not_or] at hnul hcr
        rw [dos_append, length_append] at hfuel hpos
        have ha := length_pos_iff.mpr (mt dos_eq_nil_iff.mp hne)
        have ha' := length_pos_iff.mpr hne
        rw [length_append] at hn
        rw [returnToDos_utf8 hcr.1, sound_cons_iff hcr.1 hle, drop_left]
        refine ih hnul.2 hcr.2 (by omega) (by omega) (by omega) ?_
        rw [← drop_drop, hdrop, dos_append, drop_left]
      · refine iff_of_false ?_ fun h => ?_
        · rintro ⟨ps, hps, hflat, hwhole⟩
          obtain ⟨qs, -, rfl⟩ := Option.map_eq_some_iff.mp hps
          obtain ⟨⟨cs, hcs⟩, hle⟩ := hwhole _ mem_cons_self
          rw [flatten_cons, hcs] at hflat
          obtain ⟨cs', hcs', -⟩ := Text.utf8_append_inj hflat.symm
          have hpre : cs <+: left := ⟨cs', hcs'.symm⟩
          have hfits := hle rfl
          rw [hcs, returnToDos_utf8 (notMem_of_isPrefix hpre hcr)] at hfits
          exact (hunclean hwindow cs hcs hpre).not_ge hfits
        · exact h.elim hlt.not_ge fun h => hwindow h.1
    · rw [nextPart_of_le hcr hle, returnToDos_utf8 hcr, sendLoop_of_le hpos.ge]
      have hend : Sound limit [] (some []) :=
        ⟨[], rfl, rfl, nofun⟩
      have hall := (sound_cons_iff hcr hle (some [])).mpr hend
      rw [append_nil] at hall
      exact iff_of_true hall (.inl hle)

/-! ## Messages -/

theorem nul_notMem_cStr (s : List UInt8) : 0 ∉ cStr s := fun hmem =>
  absurd (mem_takeWhile_imp hmem) (by decide)

theorem wholeMessageRaw_of_notMem (h : '\x00' ∉ s) : wholeMessageRaw s = returnToDos (utf8 s) := by
  rw [wholeMessageRaw, cStr_utf8 h]
  refine Text.cStr_eq_self_iff.mpr fun hmem => ?_
  exact nul_notMem_utf8_iff.mpr h ((mem_returnToDos (by decide)).mp hmem)

/-- No part has the byte of a character that the bytes it is taken from do not have. -/
theorem notMem_nextPart (hc : c.toNat < 128) {left : List UInt8}
    (h : UInt8.ofNat c.toNat ∉ returnToUnix (left.take limit.size)) :
    UInt8.ofNat c.toNat ∉ nextPart u sp limit left := by
  rw [nextPart]
  split_ifs
  · cases htrunc : truncated sp (u.fromUtf8 (returnToUnix (left.take limit.size))) with
    | none => exact h
    | some m =>
      intro hmem
      have hm := (Text.mem_utf8_iff hc).mp ((List.takeWhile_prefix _).mem hmem)
      exact h (u.mem_ascii _ c hc ((truncated_spec htrunc).1.mem hm))
  · exact h

theorem nextPart_ne_nil {left : List UInt8} (hnul : 0 ∉ left) (hne : left ≠ []) :
    nextPart u sp limit left ≠ [] := by
  have htake : left.take limit.size ≠ [] := by
    rw [Ne, take_eq_nil_iff, not_or]
    exact ⟨limit.pos.ne', hne⟩
  have hraw := mt returnToUnix_eq_nil.mp htake
  rw [nextPart]
  split_ifs
  · cases htrunc : truncated sp (u.fromUtf8 (returnToUnix (left.take limit.size))) with
    | none => exact hraw
    | some m =>
      obtain ⟨hpre, hm⟩ := truncated_spec htrunc
      have hnone : '\x00' ∉ m := by
        intro hmem
        have hbyte := u.mem_ascii _ _ (by decide) (hpre.mem hmem)
        exact hnul (mem_of_mem_take ((mem_returnToUnix (by decide) (by decide)).mp hbyte))
      have hpart : cStr (utf8 m) ≠ [] := by
        rw [cStr_utf8 hnone]
        exact fun hnil => hm (Text.utf8_inj hnil)
      exact hpart
  · exact hraw

/-- Every part comes from some bytes of the message. -/
theorem mem_sendLoop {part : ℕ → List UInt8} {ps : List (List UInt8)}
    (h : sendLoop part total fuel pos = some ps) : ∀ p ∈ ps, ∃ pos, p = part pos := by
  induction fuel generalizing pos ps with
  | zero =>
    rw [sendLoop, Option.ite_none_right_eq_some] at h
    cases h.2
    exact nofun
  | succ fuel ih =>
    rw [sendLoop] at h
    split_ifs at h
    · cases h
      exact nofun
    · obtain ⟨qs, hqs, rfl⟩ := Option.map_eq_some_iff.mp h
      exact forall_mem_cons.mpr ⟨⟨pos, rfl⟩, ih hqs⟩

/-- **The loop ends**, as no part is empty. -/
theorem isSome_sendLoop {part : ℕ → List UInt8}
    (h : ∀ pos, pos < total → part pos ≠ []) (hfuel : total ≤ pos + fuel) :
    (sendLoop part total fuel pos).isSome := by
  induction fuel generalizing pos with
  | zero =>
    rw [sendLoop, if_pos (show total ≤ pos from hfuel)]
    rfl
  | succ fuel ih =>
    rw [sendLoop]
    split_ifs with hend
    · rfl
    · have hne := mt returnToDos_eq_nil.mp (h pos (Nat.lt_of_not_le hend))
      have hpos := length_pos_iff.mpr hne
      rw [Option.isSome_map]
      exact ih (by omega)

variable (u sp limit) in
/-- The loop of a message ends. -/
theorem isSome_send (sendServer : Bool) (text : List Char) :
    (send u sp limit sendServer text).isSome := by
  refine isSome_sendLoop (fun pos hpos => ?_) (Nat.zero_add _).ge
  split_ifs
  · have hnul : 0 ∉ (wholeMessageRaw text).drop pos :=
      fun hmem => nul_notMem_cStr _ (mem_of_mem_drop hmem)
    exact nextPart_ne_nil hnul fun hnil => hpos.not_ge (drop_eq_nil_iff.mp hnil)
  · intro hnil
    have hzero : (wholeMessageRaw text).length = 0 := by
      rw [wholeMessageRaw, show cStr (utf8 text) = [] from hnil]
      rfl
    rw [hzero] at hpos
    exact absurd hpos (Nat.not_lt_zero pos)

theorem mem_parts {ps : List (List UInt8)}
    (hc : c.toNat < 128) (hps : send u sp limit sendServer text = some ps)
    (hpart : ∀ pos, UInt8.ofNat c.toNat ∉
      if needsSplitting limit sendServer text then
        nextPart u sp limit ((wholeMessageRaw text).drop pos)
      else cStr (utf8 text)) (hflat : ps.flatten = utf8 text) : c ∉ text := by
  intro hmem
  rw [← Text.mem_utf8_iff hc, ← hflat, mem_flatten] at hmem
  obtain ⟨p, hp, hcp⟩ := hmem
  obtain ⟨pos, rfl⟩ := mem_sendLoop hps p hp
  refine hpart pos ?_
  split_ifs at hcp ⊢
  · exact hcp
  · exact hcp

/-- A null byte cuts the message off. -/
theorem nul_notMem_of_splits (h : Splits u sp limit sendServer text) : '\x00' ∉ text := by
  obtain ⟨ps, hps, hflat, -⟩ := h
  refine mem_parts (by decide) hps (fun pos => ?_) hflat
  split_ifs
  · refine notMem_nextPart (by decide) fun hmem => ?_
    rw [mem_returnToUnix (by decide) (by decide)] at hmem
    exact nul_notMem_cStr _ (mem_of_mem_drop (mem_of_mem_take hmem))
  · exact nul_notMem_cStr _

/-- Where a message is cut its carriage returns become line ends. -/
theorem cr_notMem_of_splits
    (hneeds : needsSplitting limit sendServer text = true)
    (h : Splits u sp limit sendServer text) : '\r' ∉ text := by
  obtain ⟨ps, hps, hflat, -⟩ := h
  refine mem_parts (by decide) hps (fun pos => ?_) hflat
  rw [if_pos hneeds]
  exact notMem_nextPart (by decide) (cr_notMem_returnToUnix _)

/-- What is not cut goes out in one part. -/
theorem splits_of_fits (hnul : '\x00' ∉ text)
    (h : sendServer = true → (returnToDos (utf8 text)).length ≤ limit.size) :
    Splits u sp limit sendServer text := by
  have hneeds : needsSplitting limit sendServer text = false := by
    rw [needsSplitting, wholeMessageRaw_of_notMem hnul, Bool.and_eq_false_imp]
    exact fun hserver => decide_eq_false (h hserver).not_gt
  have hwhole : ∀ p ∈ [utf8 text], Whole limit sendServer p :=
    fun p hp => mem_singleton.mp hp ▸ ⟨⟨text, rfl⟩, h⟩
  rw [Splits, send, hneeds, wholeMessageRaw_of_notMem hnul, cStr_utf8 hnul]
  cases hlen : (returnToDos (utf8 text)).length with
  | zero =>
    have hnil := returnToDos_eq_nil.mp (eq_nil_of_length_eq_zero hlen)
    exact ⟨[], rfl, hnil.symm, nofun⟩
  | succ n =>
    refine ⟨[utf8 text], ?_, append_nil _, hwhole⟩
    simp only [sendLoop, Bool.false_eq_true, if_false, hlen]
    rw [if_neg (Nat.not_succ_le_zero n), sendLoop_of_le (by omega)]
    rfl

/-- A message that is cut. -/
theorem splits_iff_clean (hnul : '\x00' ∉ text) (hcr : '\r' ∉ text)
    (h : limit.size < (returnToDos (utf8 text)).length) :
    Splits u sp limit true text ↔ Clean u sp limit text.length text := by
  have hneeds : needsSplitting limit true text = true := by
    rw [needsSplitting, wholeMessageRaw_of_notMem hnul]
    exact decide_eq_true h
  rw [Splits, send, hneeds, wholeMessageRaw_of_notMem hnul, returnToDos_utf8 hcr]
  exact sound_sendLoop_iff hnul hcr le_rfl le_rfl (Nat.zero_add _) drop_zero

variable (u sp limit) in
/-- **The messages that come out as they were**: those without null characters that fit; and where a
message is cut, those without carriage returns of which all windows are clean. -/
theorem splits_iff (sendServer : Bool) (text : List Char) :
    Splits u sp limit sendServer text ↔ '\x00' ∉ text ∧
      (sendServer = true → limit.size < (returnToDos (utf8 text)).length →
        '\r' ∉ text ∧ Clean u sp limit text.length text) := by
  constructor
  · intro h
    have hnul := nul_notMem_of_splits h
    refine ⟨hnul, ?_⟩
    rintro rfl hlt
    have hneeds : needsSplitting limit true text = true := by
      rw [needsSplitting, wholeMessageRaw_of_notMem hnul]
      exact decide_eq_true hlt
    have hcr := cr_notMem_of_splits hneeds h
    exact ⟨hcr, (splits_iff_clean hnul hcr hlt).mp h⟩
  · rintro ⟨hnul, hclean⟩
    by_cases hfits : sendServer = true → (returnToDos (utf8 text)).length ≤ limit.size
    · exact splits_of_fits hnul hfits
    · obtain ⟨rfl, hlt⟩ := Classical.not_imp.mp hfits
      rw [not_le] at hlt
      obtain ⟨hcr, hwindows⟩ := hclean rfl hlt
      exact (splits_iff_clean hnul hcr hlt).mpr hwindows

/-- What `\s` matches of ASCII. -/
def Spaces.ascii : Spaces := ⟨fun c => c = ' ' ∨ (9 ≤ c.toNat ∧ c.toNat ≤ 13), by decide⟩

/-- A letter and 225 letters of two bytes: the window ends within the last of them. -/
theorem not_splits_accents :
    ¬ Splits Decoder.bytewise .ascii .offline true ('a' :: List.replicate 225 'é') := by
  rw [splits_iff_clean (by decide) (by decide) (by decide +kernel)]
  decide +kernel

end Licq.QtGui
