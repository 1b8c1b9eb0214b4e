import Licq.Buffer.Basic
import Licq.Text.Base64

/-!
# Net/HttpProxy — a connection through an HTTP proxy

`openProxyConnection` sends a `CONNECT` request and reads the response byte by byte up to its blank
line.  Commands are formatted into a buffer of fixed size, the response is read into another, and the
encoder of the credentials takes their bytes for signed ones: `openProxyConnection_iff` says for which
names, credentials and responses it does what it shall.
-/

namespace Licq.Net

open Text List Option

/-! ## Encoding -/

/-- `tbl[i]`; none outside the table. -/
def tbl (i : ℤ) : Option UInt8 := if 0 ≤ i then base64Digits[i.toNat]? else none

/-- A `char` is signed. -/
def char (c : UInt8) : ℤ := (c.toNat : ℤ).bmod 256

/-- The four characters for three of the text; shifts and masks of negative numbers are those of
quotients and remainders that are rounded down. -/
def encodeGroup (s₀ s₁ s₂ : UInt8) : Option (List UInt8) := do
  let c₀ ← tbl (char s₀ / 4)
  let c₁ ← tbl (char s₀ % 4 * 16 + char s₁ / 16)
  let c₂ ← tbl (char s₁ % 16 * 4 + char s₂ / 64)
  let c₃ ← tbl (char s₂ % 64)
  some [c₀, c₁, c₂, c₃]

/-- `base64_encode` of a text that has a NUL behind it and nothing more; none where it reads outside
the text or the table. -/
def base64Encode : List UInt8 → Option (List UInt8)
  | [] => some []
  -- `s[2]` is behind the NUL
  | [_] => none
  | [s₀, s₁] => (encodeGroup s₀ s₁ 0).map fun store => store.take 3 ++ asciiBytes ['=']
  | s₀ :: s₁ :: s₂ :: s => do
    let store ← encodeGroup s₀ s₁ s₂
    let rest ← base64Encode s
    some (store ++ rest)

theorem char_of_lt {c : UInt8} (h : c.toNat < 128) : char c = c.toNat :=
  Int.bmod_eq_of_le (by omega) (by omega)

theorem char_of_ge {c : UInt8} (h : 128 ≤ c.toNat) : char c = (c.toNat : ℤ) - 256 := by
  have hlt := UInt8.toNat_lt c
  have hbmod : (c.toNat : ℤ).bmod 256 = (c.toNat : ℤ) - 256 := by
    rw [Int.bmod_def]
    generalize c.toNat = n at h hlt ⊢
    omega
  exact hbmod

/-- A place of the table. -/
theorem tbl_eq_digit_iff {i : ℤ} {n : ℕ} (hn : n < 64) :
    tbl i = some (base64Digit n) ↔ i = n := by
  rw [tbl]
  constructor
  · intro h
    split_ifs at h with hi
    have hlt := (List.getElem?_eq_some_iff.mp h).1
    rw [length_base64Digits] at hlt
    have hdigit : base64Digit i.toNat = base64Digit n := by
      rw [base64Digit, getD_eq_getElem?_getD, h]
      rfl
    have heq := base64Digit_inj hlt hn hdigit
    omega
  · rintro rfl
    rw [if_pos (Int.natCast_nonneg n), Int.toNat_natCast, base64Digit,
      getD_eq_getElem _ _ (length_base64Digits ▸ hn)]
    exact getElem?_eq_getElem _

/-- **Three characters** are encoded exactly when they are those of ASCII. -/
theorem encodeGroup_iff (s₀ s₁ s₂ : UInt8) :
    encodeGroup s₀ s₁ s₂ =
        some (base64Group (s₀.toNat * 2 ^ 16 + s₁.toNat * 2 ^ 8 + s₂.toNat)) ↔
      s₀.toNat < 128 ∧ s₁.toNat < 128 ∧ s₂.toNat < 128 := by
  have h₀ := UInt8.toNat_lt s₀
  have h₁ := UInt8.toNat_lt s₁
  have h₂ := UInt8.toNat_lt s₂
  have hparts : encodeGroup s₀ s₁ s₂ =
        some (base64Group (s₀.toNat * 2 ^ 16 + s₁.toNat * 2 ^ 8 + s₂.toNat)) ↔
      tbl (char s₀ / 4) = some (base64Digit (s₀.toNat / 4)) ∧
      tbl (char s₀ % 4 * 16 + char s₁ / 16) =
        some (base64Digit (s₀.toNat % 4 * 16 + s₁.toNat / 16)) ∧
      tbl (char s₁ % 16 * 4 + char s₂ / 64) =
        some (base64Digit (s₁.toNat % 16 * 4 + s₂.toNat / 64)) ∧
      tbl (char s₂ % 64) = some (base64Digit (s₂.toNat % 64)) := by
    rw [base64Group_eq, encodeGroup]
    simp only [bind_eq_bind, bind_eq_some_iff, some.injEq, List.cons.injEq,
      and_true]
    constructor
    · rintro ⟨c₀, hc₀, c₁, hc₁, c₂, hc₂, c₃, hc₃, rfl, rfl, rfl, rfl⟩
      exact ⟨hc₀, hc₁, hc₂, hc₃⟩
    · rintro ⟨hc₀, hc₁, hc₂, hc₃⟩
      exact ⟨_, hc₀, _, hc₁, _, hc₂, _, hc₃, rfl, rfl, rfl, rfl⟩
  rw [hparts, tbl_eq_digit_iff (by omega), tbl_eq_digit_iff (by omega),
    tbl_eq_digit_iff (by omega), tbl_eq_digit_iff (by omega)]
  constructor
  · rintro ⟨heq₀, heq₁, heq₂, -⟩
    have hlow₀ : s₀.toNat < 128 := by
      by_contra hge
      rw [char_of_ge (not_lt.mp hge)] at heq₀
      omega
    have hlow₁ : s₁.toNat < 128 := by
      by_contra hge
      rw [char_of_lt hlow₀, char_of_ge (not_lt.mp hge)] at heq₁
      omega
    refine ⟨hlow₀, hlow₁, ?_⟩
    by_contra hge
    rw [char_of_lt hlow₁, char_of_ge (not_lt.mp hge)] at heq₂
    omega
  · rintro ⟨hlow₀, hlow₁, hlow₂⟩
    rw [char_of_lt hlow₀, char_of_lt hlow₁, char_of_lt hlow₂]
    refine ⟨?_, ?_, ?_, ?_⟩ <;> omega

variable {store inputLine stream head : List UInt8} {nlc : ℕ} {junk : UInt8}

theorem length_encodeGroup {s₀ s₁ s₂ : UInt8}
    (h : encodeGroup s₀ s₁ s₂ = some store) : store.length = 4 := by
  rw [encodeGroup] at h
  simp only [bind_eq_bind, bind_eq_some_iff, some.injEq] at h
  obtain ⟨c₀, -, c₁, -, c₂, -, c₃, -, rfl⟩ := h
  rfl

/-- The last character for two is that of a zero. -/
theorem eq_of_encodeGroup_nul {s₀ s₁ : UInt8}
    (h : encodeGroup s₀ s₁ 0 = some store) :
    ∃ c₀ c₁ c₂, store = [c₀, c₁, c₂, base64Digit 0] := by
  have hlast : tbl (char 0 % 64) = some (base64Digit 0) :=
    (tbl_eq_digit_iff (by decide)).mpr (by decide)
  rw [encodeGroup] at h
  simp only [bind_eq_bind, bind_eq_some_iff, some.injEq, hlast] at h
  obtain ⟨c₀, -, c₁, -, c₂, -, c₃, rfl, rfl⟩ := h
  exact ⟨c₀, c₁, c₂, rfl⟩

theorem length_base64Encode {s : List UInt8} (h : base64Encode s = some store) :
    store.length = 4 * ((s.length + 2) / 3) := by
  induction s using base64Encode.induct generalizing store with
  | case1 =>
    cases h
    rfl
  | case2 c => cases h
  | case3 s₀ s₁ =>
    rw [base64Encode] at h
    obtain ⟨store', hstore, rfl⟩ := map_eq_some_iff.mp h
    simp [length_encodeGroup hstore, asciiBytes]
  | case4 s₀ s₁ s₂ s ih =>
    rw [base64Encode] at h
    simp only [bind_eq_bind, bind_eq_some_iff, some.injEq] at h
    obtain ⟨store', hstore, rest, hrest, rfl⟩ := h
    rw [length_append, length_encodeGroup hstore, ih hrest]
    simp only [length_cons]
    omega

/-- **The encoder** gives the base64 encoding exactly of a text in ASCII that no single character is
left of at its end. -/
theorem base64Encode_iff (s : List UInt8) :
    base64Encode s = some (base64 s) ↔ (∀ c ∈ s, c.toNat < 128) ∧ s.length % 3 ≠ 1 := by
  induction s using base64Encode.induct with
  | case1 => exact iff_of_true rfl ⟨by simp, by decide⟩
  | case2 c => exact iff_of_false nofun fun h => h.2 rfl
  | case3 s₀ s₁ =>
    have hgroup := encodeGroup_iff s₀ s₁ 0
    rw [UInt8.toNat_zero, Nat.add_zero] at hgroup
    have hiff : base64Encode [s₀, s₁] = some (base64 [s₀, s₁]) ↔
        s₀.toNat < 128 ∧ s₁.toNat < 128 := by
      rw [base64Encode, base64]
      constructor
      · intro h
        obtain ⟨store, hstore, heq⟩ := map_eq_some_iff.mp h
        have htake := append_cancel_right heq
        have hfour : store = base64Group (s₀.toNat * 2 ^ 16 + s₁.toNat * 2 ^ 8) := by
          obtain ⟨c₀, c₁, c₂, rfl⟩ := eq_of_encodeGroup_nul hstore
          have hfull := base64Group_eq s₀ s₁ 0
          rw [UInt8.toNat_zero, Nat.add_zero] at hfull
          rw [hfull] at htake ⊢
          simp only [take_succ_cons, take_zero, List.cons.injEq, and_true] at htake
          rw [htake.1, htake.2.1, htake.2.2]
        rw [hfour] at hstore
        exact ⟨(hgroup.mp hstore).1, (hgroup.mp hstore).2.1⟩
      · rintro ⟨h₀, h₁⟩
        rw [hgroup.mpr ⟨h₀, h₁, by decide⟩, map_some]
    rw [hiff]
    simp
  | case4 s₀ s₁ s₂ s ih =>
    have hiff : base64Encode (s₀ :: s₁ :: s₂ :: s) = some (base64 (s₀ :: s₁ :: s₂ :: s)) ↔
        encodeGroup s₀ s₁ s₂ =
          some (base64Group (s₀.toNat * 2 ^ 16 + s₁.toNat * 2 ^ 8 + s₂.toNat)) ∧
        base64Encode s = some (base64 s) := by
      rw [base64Encode, base64]
      simp only [bind_eq_bind, bind_eq_some_iff, some.injEq]
      constructor
      · rintro ⟨store, hstore, rest, hrest, heq⟩
        obtain ⟨rfl, rfl⟩ := append_inj heq
          ((length_encodeGroup hstore).trans (length_base64Group _).symm)
        exact ⟨hstore, hrest⟩
      · rintro ⟨hstore, hrest⟩
        exact ⟨_, hstore, _, hrest, rfl⟩
    rw [hiff, encodeGroup_iff, ih]
    simp only [forall_mem_cons, length_cons, and_assoc]
    have hmod : (s.length + 1 + 1 + 1) % 3 = s.length % 3 := by omega
    rw [hmod]

/-! ## The connection -/

def cr : UInt8 := 0x0D

def lf : UInt8 := 0x0A

def httpInputLineMax : ℕ := 8192

def httpCmdLineMax : ℕ := 384

/-- `HttpProxy` -/
structure HttpProxy where
  myProxyLogin : List UInt8
  myProxyPasswd : List UInt8

inductive ErrorType
  | none
  | errno
  | internal
  deriving DecidableEq

/-- What has come of a connection: what has been sent and received, and whether the socket is returned;
when it is not, it has been closed and -1 is. -/
structure Outcome where
  sent : List UInt8
  consumed : ℕ
  returned : Bool
  myErrorType : ErrorType
  deriving DecidableEq

/-- `snprintf(cmd, sizeof(cmd) - 1, …)` -/
def snprintf (text : List UInt8) : List UInt8 := text.take (httpCmdLineMax - 2)

/-- The request line and the host, for a name. -/
def connectLines (remoteName : List UInt8) (remotePort : ℤ) : List UInt8 :=
  asciiBytes ['C', 'O', 'N', 'N', 'E', 'C', 'T', ' '] ++ remoteName ++ asciiBytes [':'] ++
    asciiBytes (decimalInt remotePort) ++
    asciiBytes [' ', 'H', 'T', 'T', 'P', '/', '1', '.', '1', '\r', '\n', 'H', 'o', 's', 't', ':', ' '] ++
    remoteName ++ asciiBytes [':'] ++ asciiBytes (decimalInt remotePort) ++ asciiBytes ['\r', '\n']

/-- The credentials, encoded. -/
def authLine (cmdB64 : List UInt8) : List UInt8 :=
  asciiBytes ['P', 'r', 'o', 'x', 'y', '-', 'A', 'u', 't', 'h', 'o', 'r', 'i', 'z', 'a', 't', 'i', 'o',
    'n', ':', ' ', 'B', 'a', 's', 'i', 'c', ' '] ++ cmdB64 ++ asciiBytes ['\r', '\n']

/-- An integer of `sscanf`, and what follows it. -/
def scanInt (s : List Char) : Option (ℤ × List Char) :=
  let t := (readSign (s.dropWhile isSpace)).2
  if t.takeWhile Char.isDigit = [] then none else some (atoi s, t.dropWhile Char.isDigit)

/-- What follows a text that `sscanf` finds. -/
def scanText (p s : List Char) : Option (List Char) :=
  if p <+: s then some (s.drop p.length) else none

/-- The status of a response that `sscanf` reads with `HTTP/%d.%d %n%d`. -/
def statusCode (inputLine : List UInt8) : Option ℤ := do
  let s ← scanText ['H', 'T', 'T', 'P', '/'] (byteChars (cStr inputLine))
  let (_, s) ← scanInt s
  let s ← scanText ['.'] s
  let (_, s) ← scanInt s
  let (status, _) ← scanInt s
  some status

/-- The count of line ends after a character. -/
def nlcAfter (nlc : ℕ) (c : UInt8) : ℕ := if c = lf then nlc + 1 else if c = cr then nlc else 0

/-- The loop that reads the response: what it has put into `input_line`, with the place that it has
moved behind when nothing more comes, and how much it has read; none where it writes outside. -/
def readLoop (junk : UInt8) : List UInt8 → ℕ → List UInt8 → Option (List UInt8 × ℕ)
  | inputLine, nlc, [] =>
    if nlc = 2 then some (inputLine, inputLine.length)
    else some (inputLine ++ [junk], inputLine.length)
  | inputLine, nlc, c :: stream =>
    if nlc = 2 then some (inputLine, inputLine.length)
    else if inputLine.length < httpInputLineMax then
      readLoop junk (inputLine ++ [c]) (nlcAfter nlc c) stream
    else none

/-- The response is read and looked at; `junk` is what `input_line` held before. -/
def readResponse (sent : List UInt8) (junk : UInt8) (stream : List UInt8) : Option Outcome :=
  match readLoop junk [] 0 stream with
  | none => none
  | some (inputLine, consumed) =>
    if inputLine.length < httpInputLineMax then
      if statusCode inputLine = some 200 then some ⟨sent, consumed, true, .none⟩
      else some ⟨sent, consumed, false, .internal⟩
    else none

/-- The blank line ends the request. -/
def finishRequest (sent : List UInt8) (fails : Bool) (junk : UInt8) (stream : List UInt8) :
    Option Outcome :=
  if fails then some ⟨sent, 0, false, .errno⟩
  else readResponse (sent ++ snprintf (asciiBytes ['\r', '\n'])) junk stream

/-- `openProxyConnection`: which calls of `send` fail, what `input_line` holds before, and what the
proxy sends are given; none where the code leaves its buffers or tables. -/
def HttpProxy.openProxyConnection (p : HttpProxy) (sendFails : ℕ → Bool) (junk : UInt8)
    (remoteName : List UInt8) (remotePort : ℤ) (stream : List UInt8) : Option Outcome :=
  let cmd := snprintf (connectLines (cStr remoteName) remotePort)
  if sendFails 0 then some ⟨[], 0, false, .errno⟩
  else if p.myProxyLogin ≠ [] ∧ p.myProxyPasswd ≠ [] then
    match base64Encode (p.myProxyLogin ++ asciiBytes [':'] ++ p.myProxyPasswd) with
    | none => none
    | some cmdB64 =>
      if sendFails 1 then some ⟨cmd, 0, false, .errno⟩
      else finishRequest (cmd ++ snprintf (authLine cmdB64)) (sendFails 2) junk stream
  else finishRequest cmd (sendFails 1) junk stream

/-! ## What the connection shall be -/

/-- The credentials: of both a login and a password. -/
def HttpProxy.credentials (p : HttpProxy) : Option (List UInt8) :=
  if p.myProxyLogin ≠ [] ∧ p.myProxyPasswd ≠ [] then
    some (p.myProxyLogin ++ asciiBytes [':'] ++ p.myProxyPasswd)
  else none

/-- The head of the request. -/
def HttpProxy.requestHead (p : HttpProxy) (remoteName : List UInt8) (remotePort : ℤ) : List UInt8 :=
  connectLines remoteName remotePort ++ p.credentials.elim [] (fun auth => authLine (base64 auth)) ++
    asciiBytes ['\r', '\n']

/-- The text ends in a blank line. -/
def EndsHead (s : List UInt8) : Prop := ∃ t k, s = t ++ lf :: (List.replicate k cr ++ [lf])

/-- The head of a response: what comes up to its first blank line. -/
def IsHead (stream head : List UInt8) : Prop :=
  head <+: stream ∧ EndsHead head ∧ ∀ t, t <+: head → EndsHead t → t = head

/-- **What a connection shall be**: the request is complete, the socket is returned exactly for a
complete head with status 200, and nothing behind the head has been read then. -/
structure Outcome.Right (request stream : List UInt8) (o : Outcome) : Prop where
  sent : o.sent = request
  returned : o.returned = true ↔ ∃ head, IsHead stream head ∧ statusCode head = some 200
  consumed : o.returned = true → ∀ head, IsHead stream head → o.consumed = head.length

/-- The request fits the buffer, and its credentials are in ASCII and of a length that leaves no single
character to encode. -/
structure HttpProxy.RequestOk (p : HttpProxy) (remoteName : List UInt8) (remotePort : ℤ) : Prop where
  name : 0 ∉ remoteName
  fits : (connectLines remoteName remotePort).length ≤ httpCmdLineMax - 2
  ascii : ∀ auth ∈ p.credentials, ∀ c ∈ auth, c.toNat < 128
  length : ∀ auth ∈ p.credentials, auth.length % 3 ≠ 1
  authFits : ∀ auth ∈ p.credentials, (authLine (base64 auth)).length ≤ httpCmdLineMax - 2

/-- The head fits the buffer; a response that ends before its head does so too, and is not like one of
status 200 with what the buffer held behind it. -/
structure ResponseOk (junk : UInt8) (stream : List UInt8) : Prop where
  fits : ∀ head, IsHead stream head → head.length < httpInputLineMax
  ends : (¬ ∃ head, IsHead stream head) →
    stream.length + 1 < httpInputLineMax ∧ statusCode (stream ++ [junk]) ≠ some 200

/-! ## Reading the response -/

/-- A line end has come, and nothing but carriage returns behind it. -/
def Pending (s : List UInt8) : Prop := ∃ t k, s = t ++ lf :: List.replicate k cr

theorem pending_concat_iff (s : List UInt8) (c : UInt8) :
    Pending (s ++ [c]) ↔ c = lf ∨ c = cr ∧ Pending s := by
  constructor
  · rintro ⟨t, k, h⟩
    cases k with
    | zero =>
      obtain ⟨-, hc⟩ := append_inj' h rfl
      exact .inl (List.cons.inj hc).1
    | succ k =>
      rw [replicate_succ', ← cons_append, ← append_assoc] at h
      obtain ⟨hs, hc⟩ := append_inj' h rfl
      exact .inr ⟨(List.cons.inj hc).1, t, k, hs⟩
  · rintro (rfl | ⟨rfl, t, k, rfl⟩)
    · exact ⟨s, 0, rfl⟩
    · refine ⟨t, k + 1, ?_⟩
      rw [replicate_succ', append_assoc, cons_append]

theorem endsHead_concat_iff (s : List UInt8) (c : UInt8) :
    EndsHead (s ++ [c]) ↔ c = lf ∧ Pending s := by
  constructor
  · rintro ⟨t, k, h⟩
    rw [← cons_append, ← append_assoc] at h
    obtain ⟨hs, hc⟩ := append_inj' h rfl
    exact ⟨(List.cons.inj hc).1, t, k, hs⟩
  · rintro ⟨rfl, t, k, rfl⟩
    exact ⟨t, k, by rw [append_assoc, cons_append]⟩

theorem not_endsHead_nil : ¬ EndsHead [] := by
  rintro ⟨t, k, h⟩
  exact append_ne_nil_of_right_ne_nil t (cons_ne_nil _ _) h.symm

theorem not_pending_nil : ¬ Pending [] := by
  rintro ⟨t, k, h⟩
  exact append_ne_nil_of_right_ne_nil t (cons_ne_nil _ _) h.symm

/-- What the count of line ends says of the text so far. -/
structure Counts (inputLine : List UInt8) (nlc : ℕ) : Prop where
  pending : nlc = 1 → Pending inputLine
  none : nlc = 0 → ¬ Pending inputLine
  before : ∀ t, t <+: inputLine → EndsHead t → t = inputLine
  head : nlc = 2 ↔ EndsHead inputLine
  le : nlc ≤ 2

theorem counts_nil : Counts [] 0 where
  pending h := by cases h
  none _ := not_pending_nil
  before t ht _ := prefix_nil.mp ht
  head := iff_of_false (by decide) not_endsHead_nil
  le := by decide

/-- **One more character.** -/
theorem counts_concat (h : Counts inputLine nlc) (hnlc : nlc ≠ 2)
    (c : UInt8) : Counts (inputLine ++ [c]) (nlcAfter nlc c) := by
  have hpending : Pending inputLine ↔ nlc = 1 := by
    refine ⟨fun hp => ?_, h.pending⟩
    have hle := h.le
    have hzero : nlc ≠ 0 := fun hzero => h.none hzero hp
    omega
  have hle := h.le
  have hcr : cr ≠ lf := by decide
  refine ⟨fun hone => ?_, fun hzero => ?_, ?_, ?_, ?_⟩
  · rw [pending_concat_iff, hpending]
    rw [nlcAfter] at hone
    split_ifs at hone with hlf hcr'
    · exact .inl hlf
    · exact .inr ⟨hcr', hone⟩
  · rw [pending_concat_iff, hpending]
    rw [nlcAfter] at hzero
    split_ifs at hzero with hlf hcr'
    · rintro (hc | ⟨-, hone⟩)
      · exact hlf hc
      · omega
    · rintro (hc | ⟨hc, -⟩)
      · exact hlf hc
      · exact hcr' hc
  · intro t ht hends
    rcases prefix_concat_iff.mp ht with heq | ht
    · exact heq
    · exact absurd (h.head.mpr (h.before t ht hends ▸ hends)) hnlc
  · rw [endsHead_concat_iff, hpending, nlcAfter]
    split_ifs with hlf hcr'
    · simp only [hlf, true_and]
      omega
    · exact iff_of_false hnlc fun h => hlf h.1
    · exact iff_of_false (by decide) fun h => hlf h.1
  · rw [nlcAfter]
    split_ifs <;> omega

/-- What the loop leaves in the buffer, when there is room for a NUL behind it. -/
def stored (junk : UInt8) (inputLine : List UInt8) (nlc : ℕ) (stream : List UInt8) :
    Option (List UInt8 × ℕ) :=
  (readLoop junk inputLine nlc stream).filter fun r => r.1.length < httpInputLineMax

theorem stored_some {s : List UInt8} {n : ℕ}
    (h : readLoop junk inputLine nlc stream = some (s, n)) :
    stored junk inputLine nlc stream = if s.length < httpInputLineMax then some (s, n) else none := by
  rw [stored, h, filter_some]
  simp only [decide_eq_true_eq]

/-- The head of what has come and what will come, once it has come. -/
theorem eq_of_isHead
    (hcounts : Counts inputLine 2) (h : IsHead (inputLine ++ stream) head) : head = inputLine := by
  have hends := hcounts.head.mp rfl
  rcases prefix_or_prefix_of_prefix h.1 (prefix_append inputLine stream) with hle | hle
  · exact hcounts.before head hle h.2.1
  · exact (h.2.2 inputLine hle hends).symm

/-- **A complete head** is what is stored, when it fits. -/
theorem stored_of_isHead
    (hcounts : Counts inputLine nlc) (h : IsHead (inputLine ++ stream) head) :
    stored junk inputLine nlc stream =
      if head.length < httpInputLineMax then some (head, head.length) else none := by
  induction stream generalizing inputLine nlc with
  | nil =>
    rw [append_nil] at h
    have hhead : head = inputLine := hcounts.before head h.1 h.2.1
    have hnlc : nlc = 2 := hcounts.head.mpr (hhead ▸ h.2.1)
    rw [stored_some (s := inputLine) (n := inputLine.length), hhead]
    rw [readLoop, if_pos hnlc]
  | cons c stream ih =>
    by_cases hnlc : nlc = 2
    · subst hnlc
      rw [eq_of_isHead hcounts h]
      refine stored_some ?_
      rw [readLoop, if_pos rfl]
    · have happend : inputLine ++ c :: stream = (inputLine ++ [c]) ++ stream := by
        rw [append_assoc, singleton_append]
      by_cases hroom : inputLine.length < httpInputLineMax
      · rw [stored, readLoop, if_neg hnlc, if_pos hroom]
        exact ih (counts_concat hcounts hnlc c) (happend ▸ h)
      · have hlong : inputLine.length ≤ head.length := by
          rcases prefix_or_prefix_of_prefix h.1 (prefix_append inputLine _) with hle | hle
          · have heq := hcounts.before head hle h.2.1
            exact absurd (hcounts.head.mpr (heq ▸ h.2.1)) hnlc
          · exact hle.length_le
        rw [stored, readLoop, if_neg hnlc, if_neg hroom, if_neg (by omega)]
        rfl

/-- **A response that ends before its head** is stored with what the buffer held behind it. -/
theorem stored_of_no_head
    (hcounts : Counts inputLine nlc) (h : ¬ ∃ head, IsHead (inputLine ++ stream) head) :
    stored junk inputLine nlc stream =
      if (inputLine ++ stream).length + 1 < httpInputLineMax then
        some (inputLine ++ stream ++ [junk], (inputLine ++ stream).length) else none := by
  have hnlc : nlc ≠ 2 := by
    rintro rfl
    have hends := hcounts.head.mp rfl
    exact h ⟨inputLine, prefix_append _ _, hends, hcounts.before⟩
  induction stream generalizing inputLine nlc with
  | nil =>
    rw [append_nil]
    rw [stored_some (s := inputLine ++ [junk]) (n := inputLine.length), length_append,
      length_singleton]
    rw [readLoop, if_neg hnlc]
  | cons c stream ih =>
    have happend : inputLine ++ c :: stream = (inputLine ++ [c]) ++ stream := by
      rw [append_assoc, singleton_append]
    have hcounts' := counts_concat hcounts hnlc c
    rw [happend] at h ⊢
    by_cases hroom : inputLine.length < httpInputLineMax
    · rw [stored, readLoop, if_neg hnlc, if_pos hroom]
      refine ih hcounts' h ?_
      intro htwo
      rw [htwo] at hcounts'
      exact h ⟨inputLine ++ [c], prefix_append _ _, hcounts'.head.mp rfl, hcounts'.before⟩
    · rw [stored, readLoop, if_neg hnlc, if_neg hroom, if_neg]
      · rfl
      · simp only [length_append]
        omega

theorem isHead_unique {head' : List UInt8} (h : IsHead stream head)
    (h' : IsHead stream head') : head' = head := by
  rcases prefix_or_prefix_of_prefix h.1 h'.1 with hle | hle
  · exact (h'.2.2 head hle h.2.1).symm
  · exact h.2.2 head' hle h'.2.1

theorem readResponse_eq (sent : List UInt8) (junk : UInt8) (stream : List UInt8) :
    readResponse sent junk stream = (stored junk [] 0 stream).map fun r =>
      if statusCode r.1 = some 200 then ⟨sent, r.2, true, .none⟩
      else ⟨sent, r.2, false, .internal⟩ := by
  rw [readResponse, stored]
  cases readLoop junk [] 0 stream with
  | none => rfl
  | some r =>
    simp only [filter_some, decide_eq_true_eq]
    by_cases hroom : r.1.length < httpInputLineMax
    · rw [if_pos hroom, if_pos hroom, map_some]
      split_ifs <;> rfl
    · rw [if_neg hroom, if_neg hroom]
      rfl

/-- **The response** is taken for what it is exactly when its head fits, or what there is of it. -/
theorem readResponse_right_iff (sent request : List UInt8) (junk : UInt8) (stream : List UInt8) :
    (∃ o, readResponse sent junk stream = some o ∧ o.Right request stream) ↔
      sent = request ∧ ResponseOk junk stream := by
  rw [readResponse_eq]
  by_cases hexists : ∃ head, IsHead stream head
  · obtain ⟨head, hhead⟩ := hexists
    have hok : ResponseOk junk stream ↔ head.length < httpInputLineMax :=
      ⟨fun h => h.fits head hhead, fun h => ⟨fun head' hhead' => isHead_unique hhead hhead' ▸ h,
        fun hnone => absurd ⟨head, hhead⟩ hnone⟩⟩
    rw [stored_of_isHead counts_nil hhead, hok]
    by_cases hroom : head.length < httpInputLineMax
    · rw [if_pos hroom, map_some]
      have hstatus : (∃ head', IsHead stream head' ∧ statusCode head' = some 200) ↔
          statusCode head = some 200 := by
        constructor
        · rintro ⟨head', hhead', h⟩
          exact isHead_unique hhead hhead' ▸ h
        · exact fun h => ⟨head, hhead, h⟩
      constructor
      · rintro ⟨o, ho, hright⟩
        cases ho
        refine ⟨?_, hroom⟩
        rw [← hright.sent]
        split_ifs <;> rfl
      · rintro ⟨rfl, -⟩
        refine ⟨_, rfl, ?_, ?_, ?_⟩
        · split_ifs <;> rfl
        · rw [hstatus]
          split_ifs with h200
          · exact iff_of_true rfl h200
          · exact iff_of_false (by decide) h200
        · intro _ head' hhead'
          rw [isHead_unique hhead hhead']
          split_ifs <;> rfl
    · rw [if_neg hroom]
      exact iff_of_false (fun ⟨o, ho, _⟩ => by cases ho) fun h => hroom h.2
  · have hok : ResponseOk junk stream ↔
        stream.length + 1 < httpInputLineMax ∧ statusCode (stream ++ [junk]) ≠ some 200 :=
      ⟨fun h => h.ends hexists, fun h => ⟨fun head hhead => absurd ⟨head, hhead⟩ hexists,
        fun _ => h⟩⟩
    have hstored : stored junk [] 0 stream =
        if stream.length + 1 < httpInputLineMax then some (stream ++ [junk], stream.length)
        else none := stored_of_no_head counts_nil hexists
    rw [hstored, hok]
    by_cases hroom : stream.length + 1 < httpInputLineMax
    · rw [if_pos hroom, map_some]
      constructor
      · rintro ⟨o, ho, hright⟩
        cases ho
        refine ⟨?_, hroom, fun h200 => ?_⟩
        · rw [← hright.sent]
          split_ifs <;> rfl
        · obtain ⟨head, hhead, -⟩ := hright.returned.mp (by rw [if_pos h200])
          exact hexists ⟨head, hhead⟩
      · rintro ⟨rfl, -, h200⟩
        rw [if_neg h200]
        refine ⟨_, rfl, rfl, iff_of_false (by simp) ?_, nofun⟩
        exact fun ⟨head, hhead, _⟩ => hexists ⟨head, hhead⟩
    · rw [if_neg hroom]
      exact iff_of_false (fun ⟨o, ho, _⟩ => by cases ho) fun h => hroom h.2.1

/-! ## The request -/

theorem length_connectLines (remoteName : List UInt8) (remotePort : ℤ) :
    (connectLines remoteName remotePort).length =
      2 * remoteName.length + (2 * (decimalInt remotePort).length + 29) := by
  simp [connectLines, asciiBytes]
  omega

theorem length_authLine (cmdB64 : List UInt8) : (authLine cmdB64).length = cmdB64.length + 29 := by
  simp [authLine, asciiBytes]

theorem snprintf_eq_self_iff (text : List UInt8) :
    snprintf text = text ↔ text.length ≤ httpCmdLineMax - 2 := by
  rw [snprintf, take_eq_self_iff]

theorem length_snprintf_le (text : List UInt8) : (snprintf text).length ≤ text.length := by
  rw [snprintf, length_take]
  exact Nat.min_le_right _ _

/-- **The first lines** are complete for a name without NUL that fits. -/
theorem snprintf_connectLines_iff (remoteName : List UInt8) (remotePort : ℤ) :
    snprintf (connectLines (cStr remoteName) remotePort) = connectLines remoteName remotePort ↔
      0 ∉ remoteName ∧ (connectLines remoteName remotePort).length ≤ httpCmdLineMax - 2 := by
  have hpre : cStr remoteName <+: remoteName := takeWhile_prefix _
  constructor
  · intro h
    have hle := length_snprintf_le (connectLines (cStr remoteName) remotePort)
    rw [h, length_connectLines, length_connectLines] at hle
    have hsame : cStr remoteName = remoteName :=
      hpre.eq_of_length_le (by omega)
    have hnul : 0 ∉ remoteName := by
      intro hmem
      have hne := takeWhile_eq_self_iff.mp hsame 0 hmem
      exact absurd hne (by decide)
    rw [hsame] at h
    exact ⟨hnul, (snprintf_eq_self_iff _).mp h⟩
  · rintro ⟨hnul, hle⟩
    have hsame : cStr remoteName = remoteName :=
      takeWhile_eq_self_iff.mpr fun c hc => decide_eq_true fun heq => hnul (heq ▸ hc)
    rw [hsame]
    exact (snprintf_eq_self_iff _).mpr hle

theorem authLine_inj {a b : List UInt8} (h : authLine a = authLine b) : a = b :=
  append_cancel_left (append_cancel_right h)

/-- **The credentials** are complete when they are encoded right and fit. -/
theorem snprintf_authLine_iff {auth cmdB64 : List UInt8} (h : base64Encode auth = some cmdB64) :
    snprintf (authLine cmdB64) = authLine (base64 auth) ↔
      ((∀ c ∈ auth, c.toNat < 128) ∧ auth.length % 3 ≠ 1) ∧
        (authLine (base64 auth)).length ≤ httpCmdLineMax - 2 := by
  have hlength : (authLine cmdB64).length = (authLine (base64 auth)).length := by
    rw [length_authLine, length_authLine, length_base64Encode h, length_base64]
  rw [← base64Encode_iff, h]
  constructor
  · intro heq
    have hle : (authLine cmdB64).length ≤ httpCmdLineMax - 2 := by
      have htake := congrArg List.length heq
      rw [snprintf, length_take, ← hlength] at htake
      omega
    rw [(snprintf_eq_self_iff _).mpr hle] at heq
    exact ⟨congrArg some (authLine_inj heq), hlength ▸ hle⟩
  · rintro ⟨heq, hle⟩
    rw [some.inj heq]
    exact (snprintf_eq_self_iff _).mpr hle

theorem finishRequest_eq (sent : List UInt8) (junk : UInt8) (stream : List UInt8) :
    finishRequest sent false junk stream =
      readResponse (sent ++ asciiBytes ['\r', '\n']) junk stream := rfl

/-- **The proxy**, when nothing that is sent fails: the connection is what it shall be exactly when the
request fits its buffer, the credentials can be encoded, and the response fits its buffer and does not
end like one of status 200 before its head is complete. -/
theorem openProxyConnection_iff (p : HttpProxy) (junk : UInt8) (remoteName : List UInt8)
    (remotePort : ℤ) (stream : List UInt8) :
    (∃ o, p.openProxyConnection (fun _ => false) junk remoteName remotePort stream = some o ∧
        o.Right (p.requestHead remoteName remotePort) stream) ↔
      p.RequestOk remoteName remotePort ∧ ResponseOk junk stream := by
  by_cases hauth : p.myProxyLogin ≠ [] ∧ p.myProxyPasswd ≠ []
  · generalize hcredentials : p.myProxyLogin ++ asciiBytes [':'] ++ p.myProxyPasswd = auth
    have hsome : p.credentials = some auth := by rw [HttpProxy.credentials, if_pos hauth, hcredentials]
    have hok : p.RequestOk remoteName remotePort ↔
        (0 ∉ remoteName ∧ (connectLines remoteName remotePort).length ≤ httpCmdLineMax - 2) ∧
          ((∀ c ∈ auth, c.toNat < 128) ∧ auth.length % 3 ≠ 1) ∧
            (authLine (base64 auth)).length ≤ httpCmdLineMax - 2 := by
      constructor
      · exact fun h => ⟨⟨h.name, h.fits⟩, ⟨h.ascii auth hsome, h.length auth hsome⟩,
          h.authFits auth hsome⟩
      · rintro ⟨⟨hname, hfits⟩, ⟨hascii, hlength⟩, hauthFits⟩
        refine ⟨hname, hfits, ?_, ?_, ?_⟩
        all_goals
          intro auth' hauth'
          cases hsome.symm.trans hauth'
          assumption
    have hopen : p.openProxyConnection (fun _ => false) junk remoteName remotePort stream =
        (base64Encode auth).bind fun cmdB64 =>
          finishRequest (snprintf (connectLines (cStr remoteName) remotePort) ++
            snprintf (authLine cmdB64)) false junk stream := by
      simp only [HttpProxy.openProxyConnection, hcredentials, if_pos hauth, Bool.false_eq_true,
        if_false]
      cases base64Encode auth <;> rfl
    rw [hopen, hok, ← snprintf_connectLines_iff, HttpProxy.requestHead, hsome]
    cases hencode : base64Encode auth with
    | none =>
      refine iff_of_false (fun ⟨o, ho, _⟩ => by cases ho) ?_
      rintro ⟨⟨-, hascii, -⟩, -⟩
      rw [← base64Encode_iff, hencode] at hascii
      cases hascii
    | some cmdB64 =>
      rw [Option.bind_some, finishRequest_eq, readResponse_right_iff,
        ← snprintf_authLine_iff hencode, Option.elim_some]
      refine and_congr_left fun _ => ?_
      constructor
      · intro h
        have hlines := List.append_cancel_right h
        have hle := length_snprintf_le (authLine cmdB64)
        rw [length_authLine, length_base64Encode hencode, ← length_base64, ← length_authLine] at hle
        have hle' := length_snprintf_le (connectLines (cStr remoteName) remotePort)
        have hcut : (cStr remoteName).length ≤ remoteName.length :=
          (List.takeWhile_prefix _).length_le
        rw [length_connectLines] at hle'
        have hsum := congrArg List.length hlines
        rw [List.length_append, List.length_append, length_connectLines] at hsum
        exact List.append_inj hlines (by rw [length_connectLines]; omega)
      · rintro ⟨hlines, hline⟩
        rw [hlines, hline]
  · have hnone : p.credentials = none := if_neg hauth
    have hok : p.RequestOk remoteName remotePort ↔
        0 ∉ remoteName ∧ (connectLines remoteName remotePort).length ≤ httpCmdLineMax - 2 := by
      constructor
      · exact fun h => ⟨h.name, h.fits⟩
      · rintro ⟨hname, hfits⟩
        refine ⟨hname, hfits, ?_, ?_, ?_⟩
        all_goals
          intro auth hsome
          rw [hnone] at hsome
          cases hsome
    have hopen : p.openProxyConnection (fun _ => false) junk remoteName remotePort stream =
        finishRequest (snprintf (connectLines (cStr remoteName) remotePort)) false junk stream := by
      simp only [HttpProxy.openProxyConnection, if_neg hauth, Bool.false_eq_true, if_false]
    rw [hopen, hok, ← snprintf_connectLines_iff, HttpProxy.requestHead, hnone, finishRequest_eq,
      readResponse_right_iff, Option.elim_none, List.append_nil]
    exact and_congr_left fun _ => ⟨fun h => List.append_cancel_right h, fun h => by rw [h]⟩

/-- A proxy that wants no credentials, and closes the connection behind a status of 200. -/
theorem not_right_truncated : ¬ ∃ o,
    HttpProxy.openProxyConnection ⟨[], []⟩ (fun _ => false) 0 (asciiBytes ['a']) 80
        (asciiBytes ['H', 'T', 'T', 'P', '/', '1', '.', '1', ' ', '2', '0', '0']) = some o ∧
      o.Right (HttpProxy.requestHead ⟨[], []⟩ (asciiBytes ['a']) 80)
        (asciiBytes ['H', 'T', 'T', 'P', '/', '1', '.', '1', ' ', '2', '0', '0']) := by
  rintro ⟨o, ho, hright⟩
  have hreturned : o.returned = true := by
    have heq : (HttpProxy.openProxyConnection ⟨[], []⟩ (fun _ => false) 0 (asciiBytes ['a']) 80
        (asciiBytes ['H', 'T', 'T', 'P', '/', '1', '.', '1', ' ', '2', '0', '0'])).map
          (·.returned) = some true := by decide +kernel
    rw [ho] at heq
    exact Option.some.inj heq
  obtain ⟨head, ⟨hpre, ⟨t, k, hends⟩, -⟩, -⟩ := hright.returned.mp hreturned
  have hlf : lf ∈ head := hends ▸ List.mem_append_right t List.mem_cons_self
  exact absurd (hpre.subset hlf) (by decide)

end Licq.Net
