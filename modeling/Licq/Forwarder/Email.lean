import Licq.Buffer.Basic
import Licq.ContactList.UserId
import Licq.Net.Smtp
import Licq.Text.Printf

/-!
# Forwarder/Email — events forwarded by mail

`ForwardEvent_Email` puts the names and addresses of a contact and its owner, and what the event has,
into the headers of a mail, and the text of the event behind them.

The **main result** `receives_iff` says for which of these a mail server receives the mail that it
should.
-/

namespace Licq.Forwarder

open Text Smtp List

/-! ## Contacts and events -/

/-- The texts of a contact and its owner. -/
structure Contact where
  isUser : Bool
  protocolId : ℕ
  accountId : List UInt8
  getAlias : List UInt8
  getFullName : List UInt8
  getEmail : List UInt8
  /-- `getAlias` of the owner with the `ownerId` of the contact. -/
  ownerAlias : List UInt8

/-- A text of one line, as `ctime_r` gives the time, less its end, and as the names of events are. -/
structure Line where
  text : List UInt8
  lf_notMem : lf ∉ text
  nul_notMem : 0 ∉ text

/-- `UserEvent::EventType`, as far as subjects differ, and what the event has for its subject. -/
inductive EventType
  | typeMessage
  | typeChat
  | typeUrl (url : List UInt8)
  | typeFile (filename : List UInt8)
  | other

structure UserEvent where
  time : Line
  eventType : EventType
  description : Line
  textLoc : List UInt8

/-! ## The mail -/

section Headers

variable (fromUtf8 : List UInt8 → List UInt8) (mySmtpTo : List UInt8) (u : Contact) (e : UserEvent)

def headTo : List UInt8 :=
  literal "To: " ++ (if u.isUser then u.ownerAlias else u.getAlias) ++ literal " <" ++ mySmtpTo ++
    literal ">"

def headFrom : List UInt8 :=
  if !u.isUser then
    if u.protocolId = icqPpid then literal "From: ICQ System Message <support@icq.com>"
    else literal "From: System Message <" ++ u.getEmail ++ literal ">"
  else if u.protocolId = icqPpid then
    literal "From: \"" ++ u.getAlias ++ literal "\" <" ++ u.accountId ++
      literal "@pager.icq.com>"
  else literal "From: \"" ++ u.getAlias ++ literal "\" <" ++ u.getEmail ++ literal ">"

def headReplyTo : List UInt8 :=
  if !u.isUser then
    if u.protocolId = icqPpid then literal "Reply-To: Mirabilis <support@icq.com>" else []
  else literal "Reply-To: \"" ++ u.getFullName ++ literal "\" <" ++ u.getEmail ++ literal ">"

def headDate : List UInt8 := literal "Date: " ++ e.time.text

/-- `SUBJ_CHARS` -/
def subjChars : ℕ := 20

def subject : List UInt8 :=
  match e.eventType with
  | .typeMessage | .typeChat =>
    literal "Subject: " ++ e.description.text ++ literal " [" ++
      (e.textLoc.take subjChars).takeWhile (· ≠ lf) ++
      (if e.textLoc.length > subjChars then literal "..." else []) ++ literal "]"
  | .typeUrl url =>
    literal "Subject: " ++ e.description.text ++ literal " [" ++ fromUtf8 url ++ literal "]"
  | .typeFile filename =>
    literal "Subject: " ++ e.description.text ++ literal " [" ++ filename ++ literal "]"
  | .other => literal "Subject: " ++ e.description.text

/-- `msg` of `ForwardEvent_Email`. -/
def msg : List UInt8 :=
  headDate e ++ literal "\r\n" ++ headFrom u ++ literal "\r\n" ++ headTo mySmtpTo u ++
    literal "\r\n" ++ headReplyTo u ++ literal "\r\n" ++ subject fromUtf8 e ++
    literal "\r\n\r\n" ++ returnToDos e.textLoc ++ literal "\r\n.\r\n"

/-- The bytes behind `DATA`, which `fprintf` prints with `%s`. -/
def sent : List UInt8 := cStr (msg fromUtf8 mySmtpTo u e)

/-- The headers in their order, the one that is missing as an empty text. -/
def headers : List (List UInt8) :=
  [headDate e, headFrom u, headTo mySmtpTo u, headReplyTo u, subject fromUtf8 e]

/-- What the event has for its subject besides its text. -/
def EventType.values : EventType → List (List UInt8)
  | typeUrl url => [fromUtf8 url]
  | typeFile filename => [filename]
  | _ => []

/-- The names and addresses that are put into the headers. -/
def values : List (List UInt8) :=
  mySmtpTo :: e.eventType.values fromUtf8 ++
    if u.isUser then
      [u.ownerAlias, u.getAlias, if u.protocolId = icqPpid then u.accountId else u.getEmail,
        u.getFullName, u.getEmail]
    else if u.protocolId = icqPpid then [u.getAlias] else [u.getAlias, u.getEmail]

end Headers

variable {fromUtf8 : List UInt8 → List UInt8} {mySmtpTo : List UInt8} {u : Contact} {e : UserEvent}
  {c : UInt8}

/-! ## Headers -/

theorem msg_eq : msg fromUtf8 mySmtpTo u e =
    mail (headers fromUtf8 mySmtpTo u e) (returnToDos e.textLoc) := by
  have hcrlf : literal "\r\n" = [cr, lf] := by decide
  have hcrlf₂ : literal "\r\n\r\n" = [cr, lf, cr, lf] := by decide
  have hend : literal "\r\n.\r\n" = [cr, lf, dot, cr, lf] := by decide
  simp only [msg, mail, headers, hcrlf, hcrlf₂, hend, flatMap_cons, flatMap_nil,
    append_assoc, cons_append, nil_append]

/-- The literals are of one line. -/
theorem notMem_literal {s : String} (hc : c = lf ∨ c = 0)
    (hs : s.toList.all (fun ch => 32 ≤ ch.toNat ∧ ch.toNat < 128)) : c ∉ literal s := by
  intro hmem
  obtain ⟨ch, hch, rfl⟩ := mem_map.mp hmem
  have hrange := of_decide_eq_true (all_eq_true.mp hs ch hch)
  have hnat : (UInt8.ofNat ch.toNat).toNat = ch.toNat := by
    rw [UInt8.toNat_ofNat']
    omega
  rcases hc with hc | hc <;> rw [hc] at hnat
  · exact absurd hnat (show 10 ≠ _ by omega)
  · exact absurd hnat (show 0 ≠ _ by omega)

theorem notMem_headDate (hc : c = lf ∨ c = 0) : c ∉ headDate e := by
  rw [headDate, mem_append]
  rintro (hmem | hmem)
  · exact notMem_literal hc rfl hmem
  · rcases hc with rfl | rfl
    · exact e.time.lf_notMem hmem
    · exact e.time.nul_notMem hmem

theorem notMem_headTo_iff (hc : c = lf ∨ c = 0) : c ∉ headTo mySmtpTo u ↔
    c ∉ mySmtpTo ∧ c ∉ if u.isUser then u.ownerAlias else u.getAlias := by
  have h₁ : c ∉ literal "To: " := notMem_literal hc rfl
  have h₂ : c ∉ literal " <" := notMem_literal hc rfl
  have h₃ : c ∉ literal ">" := notMem_literal hc rfl
  simp only [headTo, mem_append, h₁, h₂, h₃, false_or, or_false, not_or]
  exact and_comm

theorem notMem_headFrom_iff (hc : c = lf ∨ c = 0) : c ∉ headFrom u ↔
    if u.isUser then
      c ∉ u.getAlias ∧ c ∉ if u.protocolId = icqPpid then u.accountId else u.getEmail
    else u.protocolId ≠ icqPpid → c ∉ u.getEmail := by
  have h₁ : c ∉ literal "From: ICQ System Message <support@icq.com>" :=
    notMem_literal hc rfl
  have h₂ : c ∉ literal "From: System Message <" := notMem_literal hc rfl
  have h₃ : c ∉ literal "From: \"" := notMem_literal hc rfl
  have h₄ : c ∉ literal "\" <" := notMem_literal hc rfl
  have h₅ : c ∉ literal "@pager.icq.com>" := notMem_literal hc rfl
  have h₆ : c ∉ literal ">" := notMem_literal hc rfl
  by_cases huser : u.isUser = true <;> by_cases hicq : u.protocolId = icqPpid <;>
    simp [headFrom, huser, hicq, h₁, h₂, h₃, h₄, h₅, h₆]

theorem notMem_headReplyTo_iff (hc : c = lf ∨ c = 0) : c ∉ headReplyTo u ↔
    (u.isUser = true → c ∉ u.getFullName ∧ c ∉ u.getEmail) := by
  have h₁ : c ∉ literal "Reply-To: Mirabilis <support@icq.com>" := notMem_literal hc rfl
  have h₂ : c ∉ literal "Reply-To: \"" := notMem_literal hc rfl
  have h₃ : c ∉ literal "\" <" := notMem_literal hc rfl
  have h₄ : c ∉ literal ">" := notMem_literal hc rfl
  by_cases huser : u.isUser = true <;> by_cases hicq : u.protocolId = icqPpid <;>
    simp [headReplyTo, huser, hicq, h₁, h₂, h₃, h₄]

/-- The start of the text in a subject has no line feed. -/
theorem notMem_subject_iff (hc : c = lf ∨ c = 0) (htext : c = 0 → 0 ∉ e.textLoc) :
    c ∉ subject fromUtf8 e ↔ ∀ v ∈ e.eventType.values fromUtf8, c ∉ v := by
  have h₁ : c ∉ literal "Subject: " := notMem_literal hc rfl
  have h₂ : c ∉ literal " [" := notMem_literal hc rfl
  have h₃ : c ∉ literal "..." := notMem_literal hc rfl
  have h₄ : c ∉ literal "]" := notMem_literal hc rfl
  have hdescription : c ∉ e.description.text := by
    rcases hc with rfl | rfl
    · exact e.description.lf_notMem
    · exact e.description.nul_notMem
  have hstart : c ∉ (e.textLoc.take subjChars).takeWhile (· ≠ lf) := by
    intro hmem
    rcases hc with rfl | rfl
    · exact absurd (mem_takeWhile_imp hmem) (by decide)
    · exact htext rfl (mem_of_mem_take (List.takeWhile_prefix _ |>.subset hmem))
  have hdots : c ∉ if e.textLoc.length > subjChars then literal "..." else [] := by
    split_ifs
    exacts [h₃, not_mem_nil]
  rw [subject]
  cases e.eventType with
  | typeMessage | typeChat =>
    simp only [mem_append, h₁, h₂, h₄, hdescription, hstart, hdots, or_self,
      not_false_eq_true, EventType.values, not_mem_nil, false_imp_iff, implies_true]
  | typeUrl url =>
    simp only [mem_append, h₁, h₂, h₄, hdescription, false_or, or_false, EventType.values,
      forall_mem_singleton]
  | typeFile filename =>
    simp only [mem_append, h₁, h₂, h₄, hdescription, false_or, or_false, EventType.values,
      forall_mem_singleton]
  | other =>
    simp only [mem_append, h₁, hdescription, or_self, not_false_eq_true, EventType.values,
      not_mem_nil, false_imp_iff, implies_true]

/-- **What is put into the headers** decides on their bytes. -/
theorem notMem_headers_iff (hc : c = lf ∨ c = 0) (htext : c = 0 → 0 ∉ e.textLoc) :
    (∀ l ∈ headers fromUtf8 mySmtpTo u e, c ∉ l) ↔
      ∀ v ∈ values fromUtf8 mySmtpTo u e, c ∉ v := by
  simp only [headers, values, forall_mem_cons, forall_mem_append,
    not_mem_nil, false_imp_iff, implies_true, and_true, cons_append,
    notMem_headTo_iff hc, notMem_headFrom_iff hc, notMem_headReplyTo_iff hc,
    notMem_subject_iff hc htext, notMem_headDate hc, not_false_eq_true, true_and]
  by_cases huser : u.isUser = true <;> by_cases hicq : u.protocolId = icqPpid <;>
    simp [huser, hicq] <;> tauto

/-- No header starts with a dot, and only that of a system user of another protocol is missing. -/
theorem headers_head : (∀ l ∈ headers fromUtf8 mySmtpTo u e, l.head? ≠ some dot) ∧
    headDate e ≠ [] ∧ headFrom u ≠ [] ∧ headTo mySmtpTo u ≠ [] ∧ subject fromUtf8 e ≠ [] ∧
    (headReplyTo u = [] ↔ ¬ (u.isUser = true ∨ u.protocolId = icqPpid)) := by
  have hdate : (headDate e).head? = some 0x44 := rfl
  have hfrom : (headFrom u).head? = some 0x46 := by
    rw [headFrom]
    split_ifs <;> rfl
  have hto : (headTo mySmtpTo u).head? = some 0x54 := rfl
  have hreplyTo : (headReplyTo u).head? =
      if u.isUser = true ∨ u.protocolId = icqPpid then some 0x52 else none := by
    by_cases huser : u.isUser = true
    · rw [if_pos (Or.inl huser), headReplyTo, huser]
      rfl
    · rw [headReplyTo, if_pos (Bool.not_eq_true' _ ▸ Bool.eq_false_iff.mpr huser)]
      by_cases hicq : u.protocolId = icqPpid
      · rw [if_pos hicq, if_pos (Or.inr hicq)]
        rfl
      · rw [if_neg hicq, if_neg (not_or.mpr ⟨huser, hicq⟩)]
        rfl
  have hsubject : (subject fromUtf8 e).head? = some 0x53 := by
    rw [subject]
    cases e.eventType <;> rfl
  have hne : ∀ {l : List UInt8} {c : UInt8}, l.head? = some c → l ≠ [] := by
    rintro l c h rfl
    cases h
  refine ⟨?_, hne hdate, hne hfrom, hne hto, hne hsubject, ?_⟩
  · simp only [headers, forall_mem_cons, hdate, hfrom, hto, hreplyTo, hsubject]
    refine ⟨by decide, by decide, by decide, ?_, by decide, fun l hl => by cases hl⟩
    split_ifs <;> decide
  · rw [← head?_eq_none_iff, hreplyTo]
    split_ifs with h
    · exact iff_of_false (by decide) (not_not_intro h)
    · exact iff_of_true rfl h

theorem nul_notMem_cStr {s : List UInt8} : 0 ∉ cStr s := fun hmem =>
  absurd (mem_takeWhile_imp hmem) (by decide)

/-- Without NULs all of the mail is sent. -/
theorem sent_eq (hheaders : ∀ l ∈ headers fromUtf8 mySmtpTo u e, 0 ∉ l) (htext : 0 ∉ e.textLoc) :
    sent fromUtf8 mySmtpTo u e =
      mail (headers fromUtf8 mySmtpTo u e) (returnToDos e.textLoc) := by
  rw [sent, msg_eq, cStr_eq_self_iff]
  intro hmem
  rcases mem_mail hmem with ⟨l, hl, hnul⟩ | hnul | hnul
  · exact hheaders l hl hnul
  · exact htext ((mem_returnToDos_iff (by decide)).mp hnul)
  · exact absurd hnul (by decide)

/-- **Which mails are received** as they should, by servers that take carriage return and line feed
as the end of a line and by those that take a line feed alone as well. -/
theorem receives_iff (fromUtf8 : List UInt8 → List UInt8) (mySmtpTo : List UInt8) (u : Contact)
    (e : UserEvent) :
    (∀ lenient, Smtp.Receives lenient (sent fromUtf8 mySmtpTo u e)
      ((headers fromUtf8 mySmtpTo u e).filter (· ≠ [])) e.textLoc) ↔
    (u.isUser = true ∨ u.protocolId = icqPpid) ∧
      (∀ v ∈ values fromUtf8 mySmtpTo u e, lf ∉ v ∧ 0 ∉ v) ∧
      0 ∉ e.textLoc ∧ e.textLoc.head? ≠ some dot ∧ LineEnds e.textLoc := by
  obtain ⟨hdot, hdate, hfrom, hto, hsubject, hreplyTo⟩ :=
    @headers_head fromUtf8 mySmtpTo u e
  have hkept : headReplyTo u ≠ [] →
      (headers fromUtf8 mySmtpTo u e).filter (· ≠ []) = headers fromUtf8 mySmtpTo u e := by
    intro hne
    simp [headers, hdate, hfrom, hto, hsubject, hne]
  constructor
  · intro h
    have hnul : ∀ {s : List UInt8}, (0 ∈ s → 0 ∈ sent fromUtf8 mySmtpTo u e) → 0 ∉ s :=
      fun himp hmem => nul_notMem_cStr (himp hmem)
    have htext : 0 ∉ e.textLoc := hnul fun hmem => (h true).mem (by decide) (.inr hmem)
    have hlines : ∀ l ∈ headers fromUtf8 mySmtpTo u e, lf ∉ l ∧ 0 ∉ l := by
      intro l hl
      by_cases hnil : l = []
      · rw [hnil]
        exact ⟨List.not_mem_nil, List.not_mem_nil⟩
      · have hmem : l ∈ (headers fromUtf8 mySmtpTo u e).filter (· ≠ []) :=
          List.mem_filter.mpr ⟨hl, decide_eq_true hnil⟩
        exact ⟨(h true).lf_notMem l hmem, hnul fun hzero =>
          (h true).mem (by decide) (.inl ⟨l, hmem, hzero⟩)⟩
    have hlf : ∀ l ∈ headers fromUtf8 mySmtpTo u e, lf ∉ l := fun l hl => (hlines l hl).1
    have hzero : ∀ l ∈ headers fromUtf8 mySmtpTo u e, 0 ∉ l := fun l hl => (hlines l hl).2
    have hmail := h true
    rw [sent_eq hzero htext] at hmail
    have hne : headReplyTo u ≠ [] := by
      -- The line that is empty ends the headers, and the subject comes behind it.
      intro hnil
      obtain ⟨body, hbody, -⟩ := hmail.lines hlf hdot
      simp only [headers, hnil, ne_eq, hdate, hfrom, hto, hsubject, not_false_eq_true, decide_true,
        not_true_eq_false, decide_false, Bool.false_eq_true, List.filter_cons_of_pos,
        List.filter_cons_of_neg, List.filter_nil, List.cons_append, List.nil_append,
        List.cons.injEq, true_and] at hbody
      exact hsubject hbody.1.symm
    rw [hkept hne] at hmail
    obtain ⟨hhead, hends⟩ := (receives_mail_iff hlf hdot e.textLoc).mp hmail
    refine ⟨not_not.mp fun hnot => hne (hreplyTo.mpr hnot), fun v hv => ⟨?_, ?_⟩, htext, hhead,
      hends⟩
    · exact (notMem_headers_iff (.inl rfl) fun hc => absurd hc (by decide)).mp hlf v hv
    · exact (notMem_headers_iff (.inr rfl) fun _ => htext).mp hzero v hv
  · rintro ⟨huser, hvalues, hnul, hhead, hends⟩ lenient
    have hlf := (notMem_headers_iff (Or.inl rfl) fun h => absurd h (by decide)).mpr
      fun v hv => (hvalues v hv).1
    have hzero := (notMem_headers_iff (Or.inr rfl) fun _ => hnul).mpr fun v hv => (hvalues v hv).2
    rw [hkept fun hnil => hreplyTo.mp hnil huser, sent_eq hzero hnul]
    exact (receives_mail_iff hlf hdot e.textLoc).mpr ⟨hhead, hends⟩

/-! ## A dot -/

/-- A contact of ICQ. -/
def icqContact : Contact where
  isUser := true
  protocolId := icqPpid
  accountId := literal "1234"
  getAlias := literal "Ann"
  getFullName := literal "Ann"
  getEmail := literal "ann@ex.org"
  ownerAlias := literal "Bob"

/-- A message that is a dot. -/
def dotMessage : UserEvent where
  time := ⟨literal "Thu Jan  1 00:00:00 1970", by decide, by decide⟩
  eventType := .typeMessage
  description := ⟨literal "Message", by decide, by decide⟩
  textLoc := [dot]

/-- The line of the message ends the mail, and the one that should is left for a command. -/
theorem not_receives_dotMessage :
    segments false (sent id (literal "bob@ex.org") icqContact dotMessage) =
        headers id (literal "bob@ex.org") icqContact dotMessage ++ [[], [dot], [dot], []] ∧
      ¬ ∀ lenient, Smtp.Receives lenient (sent id (literal "bob@ex.org") icqContact dotMessage)
        ((headers id (literal "bob@ex.org") icqContact dotMessage).filter (· ≠ []))
        dotMessage.textLoc := by
  have hsegments : segments false (sent id (literal "bob@ex.org") icqContact dotMessage) =
      headers id (literal "bob@ex.org") icqContact dotMessage ++ [[], [dot], [dot], []] := by
    decide +kernel
  refine ⟨hsegments, fun h => ?_⟩
  obtain ⟨content, body, hcontent, hdot, -⟩ := h false
  have heq : content ++ [[dot], []] =
      (headers id (literal "bob@ex.org") icqContact dotMessage ++ [[], [dot]]) ++ [[dot], []] := by
    rw [← hcontent, hsegments, List.append_assoc]
    rfl
  exact hdot (List.append_cancel_right heq ▸ by simp)

end Licq.Forwarder
