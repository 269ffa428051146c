import Nublado.Client.Session

/-!
# What a call returns

`run_python` returns normally once it has both a reply and the news that the kernel is idle, and returns
what the kernel has printed up to then — or, if the socket is closed normally before that, what there is
of it.

`parseMessage_cases` says what a message is to a call: it fails the call, it is passed over, or it is read
as output and as one of the two markers. `readResult_cases` and `readResult_of_closed` follow the loop
from what it has read so far. `run_python_iff` is the result: the calls that return something else than
all output are the truncated ones.
-/

namespace Nublado.Client

/-! ### What messages say -/

section Messages

variable (codec : JsonCodec) (messageId : String) (message : WebSocketMessage)

/-- The content of a message of a type whose parent header has the message ID. -/
@[grind =] def contentOf (msgType : String) : Option Json :=
  (decodeWebsocketMessage codec message).bind fun data ↦
    if (data.parentHeader.get "msg_id").bind Json.text = some messageId ∧
      (data.header.get "msg_type").bind Json.text = some msgType then some data.content else none

/-- The message has the message ID in its parent header. -/
def IsOwn : Prop := ((decodeWebsocketMessage codec message).bind fun data ↦
  (data.parentHeader.get "msg_id").bind Json.text) = some messageId

instance : Decidable (IsOwn codec messageId message) := inferInstanceAs (Decidable (_ = _))

/-- The message is the reply for a successful execution. -/
def IsReply : Prop :=
  ((contentOf codec messageId message "execute_reply").bind fun content ↦
    (content.get "status").bind Json.text) = some "ok"

/-- The message says that the kernel is idle. -/
def IsIdle : Prop :=
  ((contentOf codec messageId message "status").bind fun content ↦
    (content.get "execution_state").bind Json.text) = some "idle"

/-- What the message adds to the output: the text of a stream message. -/
def streamText : String :=
  (((contentOf codec messageId message "stream").bind fun content ↦
    (content.get "text").bind Json.text)).getD ""

/-- The message makes the call raise an exception: it is the reply for an execution that has failed, with
a traceback that is text if there is one, or a stream message with something else than text. -/
def IsFailure : Prop :=
  (∃ content status, contentOf codec messageId message "execute_reply" = some content ∧
    content.get "status" = some status ∧ status.text ≠ some "ok" ∧
    ((content.get "traceback").any Json.truthy = true → ((content.get "traceback").bind
      Json.join).isSome = true)) ∨
  ∃ content text, contentOf codec messageId message "stream" = some content ∧
    content.get "text" = some text ∧ text.text = none

end Messages

variable {codec : JsonCodec} {messageId : String} {message : WebSocketMessage}

theorem orUnparsable_eq_ok {α : Type} {x : Option α} {a : α} : orUnparsable x = .ok a ↔ x = some a := by
  rcases x with _ | b
  · simp [orUnparsable]
  · simp [orUnparsable]

theorem parseMessage_of_decoded {data : KernelMessage}
    (hdata : decodeWebsocketMessage codec message = some data) :
    parseMessage codec messageId message =
      (orUnparsable data.parentHeader.items).bind fun parent ↦
        if (parent.lookup "msg_id").bind Json.text = some messageId then
          (orUnparsable (data.header.get "msg_type")).bind fun msgType ↦
            parseContent msgType data.content
        else .ok none := by
  rw [parseMessage, hdata]
  rfl

/-- A message with another ID is passed over. -/
theorem parseMessage_of_not_isOwn (h : ¬ IsOwn codec messageId message) :
    parseMessage codec messageId message = .error .unparsable ∨
      parseMessage codec messageId message = .ok none := by
  rcases hdata : decodeWebsocketMessage codec message with _ | data
  · left
    rw [parseMessage, hdata]
    rfl
  · rw [parseMessage_of_decoded hdata]
    rcases hparent : data.parentHeader.items with _ | parent
    · exact Or.inl rfl
    · right
      have hid : (parent.lookup "msg_id").bind Json.text ≠ some messageId := by
        intro heq
        refine h ?_
        rw [IsOwn, hdata, Option.bind_some, Json.get, hparent, Option.bind_some]
        exact heq
      show (if _ then _ else _) = _
      exact if_neg hid

/-- A message with the ID is parsed by its type. -/
theorem parseMessage_of_isOwn (h : IsOwn codec messageId message) : ∃ data,
    decodeWebsocketMessage codec message = some data ∧
      parseMessage codec messageId message = (orUnparsable (data.header.get "msg_type")).bind
        fun msgType ↦ parseContent msgType data.content := by
  obtain ⟨data, hdata, hid⟩ := Option.bind_eq_some_iff.1 h
  refine ⟨data, hdata, ?_⟩
  obtain ⟨value, hvalue, htext⟩ := Option.bind_eq_some_iff.1 hid
  obtain ⟨parent, hparent, hlookup⟩ := Option.bind_eq_some_iff.1 hvalue
  have hcond : (parent.lookup "msg_id").bind Json.text = some messageId := by
    rw [hlookup, Option.bind_some, htext]
  rw [parseMessage_of_decoded hdata, hparent]
  show (if _ then _ else _) = _
  exact if_pos hcond

theorem contentOf_of_not_isOwn (h : ¬ IsOwn codec messageId message) (msgType : String) :
    contentOf codec messageId message msgType = none := by
  refine Option.eq_none_iff_forall_ne_some.2 fun content hcontent ↦ h ?_
  obtain ⟨data, hdata, hif⟩ := Option.bind_eq_some_iff.1 hcontent
  obtain ⟨⟨hid, -⟩, -⟩ := Option.ite_none_right_eq_some.1 hif
  rw [IsOwn, hdata, Option.bind_some]
  exact hid

theorem contentOf_of_isOwn (h : IsOwn codec messageId message) {data : KernelMessage}
    (hdata : decodeWebsocketMessage codec message = some data) (msgType : String) :
    contentOf codec messageId message msgType =
      if (data.header.get "msg_type").bind Json.text = some msgType then some data.content
      else none := by
  rw [IsOwn, hdata, Option.bind_some] at h
  rw [contentOf, hdata, Option.bind_some]
  exact if_congr (and_iff_right h) rfl rfl

/-- A message is output, as text and with what it says of the two markers. -/
def Outputs (codec : JsonCodec) (messageId : String) (message : WebSocketMessage) : Prop :=
  ∃ output, parseMessage codec messageId message = .ok (some output) ∧
    output.content.text = some (streamText codec messageId message) ∧
    (output.done = true ↔ IsReply codec messageId message) ∧
    (output.idle = true ↔ IsIdle codec messageId message)

/-- A message is passed over, and says nothing. -/
def IsIgnored (codec : JsonCodec) (messageId : String) (message : WebSocketMessage) : Prop :=
  (parseMessage codec messageId message = .error .unparsable ∨
    parseMessage codec messageId message = .ok none) ∧
  ¬ IsReply codec messageId message ∧ ¬ IsIdle codec messageId message ∧
    streamText codec messageId message = ""

/-- A message makes the call raise an exception. -/
def Raises (codec : JsonCodec) (messageId : String) (message : WebSocketMessage) : Prop :=
  (∃ status error, parseMessage codec messageId message = .error (.execution status error)) ∨
    ∃ output, parseMessage codec messageId message = .ok (some output) ∧ output.content.text = none

/-- The message fails the call, is passed over or is output, according to what it says. -/
def IsSorted (codec : JsonCodec) (messageId : String) (message : WebSocketMessage) : Prop :=
  (IsFailure codec messageId message ∧ Raises codec messageId message) ∨
    (¬ IsFailure codec messageId message ∧
      (IsIgnored codec messageId message ∨ Outputs codec messageId message))

section Sorted

variable {msgType content : Json}

/-- A message that is no reply and no output does not fail the call. -/
theorem not_isFailure (hreply : contentOf codec messageId message "execute_reply" = none)
    (hstream : contentOf codec messageId message "stream" = none) :
    ¬ IsFailure codec messageId message := by
  rintro (⟨content, status, heq, -⟩ | ⟨content, text, heq, -⟩)
  · rw [hreply] at heq
    cases heq
  · rw [hstream] at heq
    cases heq

theorem not_isReply (h : contentOf codec messageId message "execute_reply" = none) :
    ¬ IsReply codec messageId message := by
  rw [IsReply, h]
  exact fun h ↦ by cases h

theorem not_isIdle (h : contentOf codec messageId message "status" = none) :
    ¬ IsIdle codec messageId message := by
  rw [IsIdle, h]
  exact fun h ↦ by cases h

theorem streamText_of_none (h : contentOf codec messageId message "stream" = none) :
    streamText codec messageId message = "" := by
  rw [streamText, h]
  rfl

/-- A message of another type. -/
theorem isSorted_of_none (hreply : contentOf codec messageId message "execute_reply" = none)
    (hstatus : contentOf codec messageId message "status" = none)
    (hstream : contentOf codec messageId message "stream" = none)
    (hparse : parseMessage codec messageId message = .error .unparsable ∨
      parseMessage codec messageId message = .ok none) : IsSorted codec messageId message :=
  Or.inr ⟨not_isFailure hreply hstream, Or.inl ⟨hparse, not_isReply hreply, not_isIdle hstatus,
    streamText_of_none hstream⟩⟩

/-- The reply to an execution. -/
theorem isSorted_reply (hreply : contentOf codec messageId message "execute_reply" = some content)
    (hstatus : contentOf codec messageId message "status" = none)
    (hstream : contentOf codec messageId message "stream" = none)
    (hparse : parseMessage codec messageId message = parseContent msgType content)
    (htype : msgType.text = some "execute_reply") : IsSorted codec messageId message := by
  have hnotStream : ∀ content text, contentOf codec messageId message "stream" = some content →
      content.get "text" = some text → text.text ≠ none := by
    intro content text heq
    rw [hstream] at heq
    cases heq
  have hidle := not_isIdle hstatus
  have htext := streamText_of_none hstream
  rw [parseContent, if_pos htype] at hparse
  rcases hget : content.get "status" with _ | status
  · rw [hget] at hparse
    refine Or.inr ⟨?_, Or.inl ⟨Or.inl hparse, ?_, hidle, htext⟩⟩
    · rintro (⟨content', status, heq, hget', -⟩ | ⟨content', text, heq, hget', hnone⟩)
      · obtain rfl := Option.some.inj (hreply.symm.trans heq)
        rw [hget] at hget'
        cases hget'
      · exact hnotStream content' text heq hget' hnone
    · rw [IsReply, hreply, Option.bind_some, hget]
      exact fun h ↦ by cases h
  · rw [hget] at hparse
    have hparse : parseMessage codec messageId message =
        if status.text = some "ok" then .ok (some { content := .string "", done := true })
        else (parseTraceback (content.get "traceback")).bind fun error ↦
          .error (.execution status error) := hparse
    have hisReply : IsReply codec messageId message ↔ status.text = some "ok" := by
      rw [IsReply, hreply, Option.bind_some, hget]
      rfl
    by_cases hok : status.text = some "ok"
    · rw [if_pos hok] at hparse
      refine Or.inr ⟨?_, Or.inr ⟨_, hparse, ?_, iff_of_true rfl (hisReply.2 hok), ?_⟩⟩
      · rintro (⟨content', status', heq, hget', hnot, -⟩ | ⟨content', text, heq, hget', hnone⟩)
        · obtain rfl := Option.some.inj (hreply.symm.trans heq)
          obtain rfl := Option.some.inj (hget.symm.trans hget')
          exact hnot hok
        · exact hnotStream content' text heq hget' hnone
      · rw [htext]
        rfl
      · exact iff_of_false (fun h ↦ by cases h) hidle
    · rw [if_neg hok, parseTraceback] at hparse
      by_cases htraceback : (content.get "traceback").any Json.truthy = true →
          ((content.get "traceback").bind Json.join).isSome = true
      · -- the execution has failed
        have hraises : ∃ error, parseMessage codec messageId message =
            .error (.execution status error) := by
          by_cases htruthy : (content.get "traceback").any Json.truthy = true
          · obtain ⟨error, herror⟩ := Option.isSome_iff_exists.1 (htraceback htruthy)
            rw [if_pos htruthy, herror] at hparse
            exact ⟨some error, hparse⟩
          · rw [if_neg htruthy] at hparse
            exact ⟨none, hparse⟩
        exact Or.inl ⟨Or.inl ⟨content, status, hreply, hget, hok, htraceback⟩,
          Or.inl ⟨status, hraises⟩⟩
      · -- the traceback is no text
        obtain ⟨htruthy, hjoin⟩ := not_forall.1 htraceback
        have hjoin : (content.get "traceback").bind Json.join = none := by
          simpa using hjoin
        rw [if_pos htruthy, hjoin] at hparse
        refine Or.inr ⟨?_, Or.inl ⟨Or.inl hparse, fun h ↦ hok (hisReply.1 h), hidle, htext⟩⟩
        rintro (⟨content', status', heq, -, -, hfine⟩ | ⟨content', text, heq, hget', hnone⟩)
        · obtain rfl := Option.some.inj (hreply.symm.trans heq)
          exact htraceback hfine
        · exact hnotStream content' text heq hget' hnone

/-- The state of the kernel. -/
theorem isSorted_status (hreply : contentOf codec messageId message "execute_reply" = none)
    (hstatus : contentOf codec messageId message "status" = some content)
    (hstream : contentOf codec messageId message "stream" = none)
    (hparse : parseMessage codec messageId message = parseContent msgType content)
    (htype : msgType.text = some "status") : IsSorted codec messageId message := by
  refine Or.inr ⟨not_isFailure hreply hstream, ?_⟩
  rw [parseContent, if_neg (by rw [htype]; decide), if_pos htype] at hparse
  rcases hget : content.get "execution_state" with _ | state
  · rw [hget] at hparse
    refine Or.inl ⟨Or.inl hparse, not_isReply hreply, ?_, streamText_of_none hstream⟩
    rw [IsIdle, hstatus, Option.bind_some, hget]
    exact fun h ↦ by cases h
  · rw [hget] at hparse
    have hparse : parseMessage codec messageId message = .ok
        (if state.text = some "idle" then some { content := .string "", idle := true } else none) :=
      hparse
    have hisIdle : IsIdle codec messageId message ↔ state.text = some "idle" := by
      rw [IsIdle, hstatus, Option.bind_some, hget]
      rfl
    by_cases hidle : state.text = some "idle"
    · rw [if_pos hidle] at hparse
      refine Or.inr ⟨_, hparse, ?_, ?_, iff_of_true rfl (hisIdle.2 hidle)⟩
      · rw [streamText_of_none hstream]
        rfl
      · exact iff_of_false (fun h ↦ by cases h) (not_isReply hreply)
    · rw [if_neg hidle] at hparse
      exact Or.inl ⟨Or.inr hparse, not_isReply hreply, fun h ↦ hidle (hisIdle.1 h),
        streamText_of_none hstream⟩

/-- Output of the kernel. -/
theorem isSorted_stream (hreply : contentOf codec messageId message "execute_reply" = none)
    (hstatus : contentOf codec messageId message "status" = none)
    (hstream : contentOf codec messageId message "stream" = some content)
    (hparse : parseMessage codec messageId message = parseContent msgType content)
    (htype : msgType.text = some "stream") : IsSorted codec messageId message := by
  have hnotReply : ∀ content, contentOf codec messageId message "execute_reply" ≠ some content := by
    intro content heq
    rw [hreply] at heq
    cases heq
  rw [parseContent, if_neg (by rw [htype]; decide), if_neg (by rw [htype]; decide),
    if_pos htype] at hparse
  rcases hget : content.get "text" with _ | text
  · rw [hget] at hparse
    refine Or.inr ⟨?_, Or.inl ⟨Or.inl hparse, not_isReply hreply, not_isIdle hstatus, ?_⟩⟩
    · rintro (⟨content', status, heq, -⟩ | ⟨content', text, heq, hget', -⟩)
      · exact hnotReply content' heq
      · obtain rfl := Option.some.inj (hstream.symm.trans heq)
        rw [hget] at hget'
        cases hget'
    · rw [streamText, hstream, Option.bind_some, hget]
      rfl
  · rw [hget] at hparse
    have hparse : parseMessage codec messageId message = .ok (some { content := text }) := hparse
    rcases htext : text.text with _ | string
    · exact Or.inl ⟨Or.inr ⟨content, text, hstream, hget, htext⟩, Or.inr ⟨_, hparse, htext⟩⟩
    · refine Or.inr ⟨?_, Or.inr ⟨_, hparse, ?_, ?_, ?_⟩⟩
      · rintro (⟨content', status, heq, -⟩ | ⟨content', text', heq, hget', hnone⟩)
        · exact hnotReply content' heq
        · obtain rfl := Option.some.inj (hstream.symm.trans heq)
          obtain rfl := Option.some.inj (hget.symm.trans hget')
          rw [htext] at hnone
          cases hnone
      · rw [streamText, hstream, Option.bind_some, hget, Option.bind_some, htext]
        rfl
      · exact iff_of_false (fun h ↦ by cases h) (not_isReply hreply)
      · exact iff_of_false (fun h ↦ by cases h) (not_isIdle hstatus)

end Sorted

/-- **What a message is to a call.** -/
theorem isSorted (codec : JsonCodec) (messageId : String) (message : WebSocketMessage) :
    IsSorted codec messageId message := by
  by_cases hown : IsOwn codec messageId message
  · obtain ⟨data, hdata, hparse⟩ := parseMessage_of_isOwn hown
    have hcontent := contentOf_of_isOwn hown hdata
    rcases hkind : data.header.get "msg_type" with _ | msgType
    · have hnone : ∀ t, contentOf codec messageId message t = none := by
        intro t
        rw [hcontent, hkind]
        rfl
      exact isSorted_of_none (hnone _) (hnone _) (hnone _) (Or.inl (by rw [hparse, hkind]; rfl))
    · have hparsed : parseMessage codec messageId message = parseContent msgType data.content := by
        rw [hparse, hkind]
        rfl
      have hsome : ∀ {t}, msgType.text = some t →
          contentOf codec messageId message t = some data.content := by
        intro t ht
        rw [hcontent, hkind]
        exact if_pos ht
      have hnone : ∀ {t}, msgType.text ≠ some t → contentOf codec messageId message t = none := by
        intro t ht
        rw [hcontent, hkind]
        exact if_neg ht
      by_cases hreply : msgType.text = some "execute_reply"
      · exact isSorted_reply (hsome hreply) (hnone (by rw [hreply]; decide))
          (hnone (by rw [hreply]; decide)) hparsed hreply
      by_cases hstatus : msgType.text = some "status"
      · exact isSorted_status (hnone hreply) (hsome hstatus) (hnone (by rw [hstatus]; decide)) hparsed
          hstatus
      by_cases hstream : msgType.text = some "stream"
      · exact isSorted_stream (hnone hreply) (hnone hstatus) (hsome hstream) hparsed hstream
      · refine isSorted_of_none (hnone hreply) (hnone hstatus) (hnone hstream) (Or.inr ?_)
        rw [hparsed, parseContent, if_neg hreply, if_neg hstatus, if_neg hstream]
  · have hnone := contentOf_of_not_isOwn hown
    exact isSorted_of_none (hnone _) (hnone _) (hnone _) (parseMessage_of_not_isOwn hown)

/-! ### Reading messages -/

section Reading

variable {session : JupyterLabSession} {code : String} {context : Option CodeContext}
  {ending : StreamEnd} {messages : List WebSocketMessage} {result output : String}
  {complete idle : Bool}

/-- Both markers have been received, now or before. -/
@[grind =] def Complete (codec : JsonCodec) (messageId : String) (complete idle : Bool)
    (messages : List WebSocketMessage) : Prop :=
  (complete = true ∨ ∃ message ∈ messages, IsReply codec messageId message) ∧
    (idle = true ∨ ∃ message ∈ messages, IsIdle codec messageId message)

/-- A message counts as what it says. -/
theorem complete_cons {complete' idle' : Bool}
    (hcomplete : complete' = true ↔ complete = true ∨ IsReply codec messageId message)
    (hidle : idle' = true ↔ idle = true ∨ IsIdle codec messageId message) :
    Complete codec messageId complete idle (message :: messages) ↔
      Complete codec messageId complete' idle' messages := by
  simp only [Complete, List.exists_mem_cons_iff, hcomplete, hidle, or_assoc]

theorem complete_cons_of_isIgnored (h : IsIgnored codec messageId message) :
    Complete codec messageId complete idle (message :: messages) ↔
      Complete codec messageId complete idle messages := by
  obtain ⟨-, hreply, hidle, -⟩ := h
  exact complete_cons (by simp [hreply]) (by simp [hidle])

/-- The text of the stream messages, in order. -/
@[grind =] def outputOf (codec : JsonCodec) (messageId : String) (messages : List WebSocketMessage) : String :=
  String.join (messages.map (streamText codec messageId))

/-- A call ends with a message that makes it raise an exception. -/
theorem readResult_of_raises (h : Raises session.codec messageId message) : ∃ e,
    session.readResult code context messageId ending (message :: messages) result complete idle =
      .raised e := by
  rcases h with ⟨status, error, hparse⟩ | ⟨output, hparse, hnone⟩
  · exact ⟨_, by rw [JupyterLabSession.readResult, hparse]⟩
  · refine ⟨.typeError, ?_⟩
    rw [JupyterLabSession.readResult, hparse]
    simp only [hnone]

theorem readResult_of_isIgnored (h : IsIgnored session.codec messageId message) :
    session.readResult code context messageId ending (message :: messages) result complete idle =
      session.readResult code context messageId ending messages result complete idle := by
  rw [JupyterLabSession.readResult]
  rcases h.1 with hparse | hparse
  · rw [hparse]
  · rw [hparse]

/-- Output is read on to the markers. -/
theorem readResult_of_outputs (h : Outputs session.codec messageId message) :
    ∃ complete' idle' : Bool,
      (complete' = true ↔ complete = true ∨ IsReply session.codec messageId message) ∧
      (idle' = true ↔ idle = true ∨ IsIdle session.codec messageId message) ∧
      session.readResult code context messageId ending (message :: messages) result complete idle =
        if complete' && idle' then .returned (result ++ streamText session.codec messageId message)
        else session.readResult code context messageId ending messages
          (result ++ streamText session.codec messageId message) complete' idle' := by
  obtain ⟨output, hparse, htext, hdone, hidle⟩ := h
  refine ⟨complete || output.done, idle || output.idle, ?_, ?_, ?_⟩
  · rw [Bool.or_eq_true, hdone]
  · rw [Bool.or_eq_true, hidle]
  · rw [JupyterLabSession.readResult, hparse]
    simp only [htext]

theorem outputOf_cons : outputOf codec messageId (message :: messages) =
    streamText codec messageId message ++ outputOf codec messageId messages := by
  rw [outputOf, List.map_cons, String.join_cons]
  rfl

theorem outputOf_cons_of_isIgnored (h : IsIgnored codec messageId message) :
    outputOf codec messageId (message :: messages) = outputOf codec messageId messages := by
  rw [outputOf_cons, h.2.2.2, String.empty_append]

/-- **What is returned normally**: the output up to the second marker, or all of it where the socket is
closed before. -/
theorem readResult_cases (hopen : ¬ (complete = true ∧ idle = true))
    (h : session.readResult code context messageId ending messages result complete idle =
      .returned output) :
    (∃ before message after, messages = before ++ message :: after ∧
      Complete session.codec messageId complete idle (before ++ [message]) ∧
      ¬ Complete session.codec messageId complete idle before ∧
      output = result ++ outputOf session.codec messageId (before ++ [message])) ∨
    (ending = .closed ∧ ¬ Complete session.codec messageId complete idle messages ∧
      (∀ message ∈ messages, ¬ IsFailure session.codec messageId message) ∧
      output = result ++ outputOf session.codec messageId messages) := by
  induction messages generalizing result complete idle with
  | nil =>
    right
    rw [JupyterLabSession.readResult] at h
    rcases ending with _ | _ | _ | _
    · obtain rfl := Outcome.returned.inj h
      refine ⟨rfl, ?_, by simp, String.append_empty.symm⟩
      rintro ⟨hcomplete | ⟨_, hmem, -⟩, hidle | ⟨_, hmem, -⟩⟩
      · exact hopen ⟨hcomplete, hidle⟩
      all_goals cases hmem
    all_goals cases h
  | cons message messages ih =>
    rcases isSorted session.codec messageId message with
      ⟨-, hraises⟩ | ⟨hfailure, hignored | houtputs⟩
    · obtain ⟨e, he⟩ : ∃ e, session.readResult code context messageId ending (message :: messages)
          result complete idle = .raised e := readResult_of_raises hraises
      rw [he] at h
      cases h
    · rw [readResult_of_isIgnored hignored] at h
      rcases ih hopen h with ⟨before, last, after, rfl, hdone, hnot, rfl⟩ | ⟨hclosed, hnot, hrest, rfl⟩
      · refine Or.inl ⟨message :: before, last, after, rfl, ?_, ?_, ?_⟩
        · exact (complete_cons_of_isIgnored hignored).2 hdone
        · rwa [complete_cons_of_isIgnored hignored]
        · rw [List.cons_append, outputOf_cons_of_isIgnored hignored]
      · refine Or.inr ⟨hclosed, ?_, List.forall_mem_cons.2 ⟨hfailure, hrest⟩, ?_⟩
        · rwa [complete_cons_of_isIgnored hignored]
        · rw [outputOf_cons_of_isIgnored hignored]
    · obtain ⟨complete', idle', hcomplete', hidle', heq⟩ := readResult_of_outputs houtputs
      rw [heq] at h
      by_cases hdone : (complete' && idle') = true
      · -- the second marker
        rw [if_pos hdone] at h
        obtain rfl := Outcome.returned.inj h
        rw [Bool.and_eq_true] at hdone
        refine Or.inl ⟨[], message, messages, rfl, ?_, ?_, ?_⟩
        · exact (complete_cons hcomplete' hidle').2 ⟨Or.inl hdone.1, Or.inl hdone.2⟩
        · rintro ⟨hcomplete | ⟨_, hmem, -⟩, hidle | ⟨_, hmem, -⟩⟩
          · exact hopen ⟨hcomplete, hidle⟩
          all_goals cases hmem
        · rw [List.nil_append, outputOf_cons]
          simp [outputOf]
      · rw [if_neg hdone] at h
        rw [Bool.and_eq_true] at hdone
        rcases ih hdone h with ⟨before, last, after, rfl, hend, hnot, rfl⟩ | ⟨hclosed, hnot, hrest, rfl⟩
        · refine Or.inl ⟨message :: before, last, after, rfl, ?_, ?_, ?_⟩
          · exact (complete_cons hcomplete' hidle').2 hend
          · rwa [complete_cons hcomplete' hidle']
          · rw [List.cons_append, outputOf_cons, String.append_assoc]
        · refine Or.inr ⟨hclosed, ?_, List.forall_mem_cons.2 ⟨hfailure, hrest⟩, ?_⟩
          · rwa [complete_cons hcomplete' hidle']
          · rw [outputOf_cons, String.append_assoc]

/-- Where the socket is closed before the markers are received, and nothing fails, the call returns
normally. -/
theorem readResult_of_closed (hnot : ¬ Complete session.codec messageId complete idle messages)
    (hfailure : ∀ message ∈ messages, ¬ IsFailure session.codec messageId message) :
    session.readResult code context messageId .closed messages result complete idle =
      .returned (result ++ outputOf session.codec messageId messages) := by
  induction messages generalizing result complete idle with
  | nil =>
    rw [JupyterLabSession.readResult]
    exact congrArg Outcome.returned String.append_empty.symm
  | cons message messages ih =>
    obtain ⟨hfirst, hrest⟩ := List.forall_mem_cons.1 hfailure
    rcases (isSorted session.codec messageId message).resolve_left fun h ↦ hfirst h.1 with
      ⟨-, hignored | houtputs⟩
    · rw [complete_cons_of_isIgnored hignored] at hnot
      rw [readResult_of_isIgnored hignored, ih hnot hrest, outputOf_cons_of_isIgnored hignored]
    · obtain ⟨complete', idle', hcomplete', hidle', heq⟩ := readResult_of_outputs houtputs
      rw [complete_cons hcomplete' hidle'] at hnot
      have hgoOn : ¬ (complete' && idle') = true := by
        rw [Bool.and_eq_true]
        exact fun ⟨hcomplete, hidle⟩ ↦ hnot ⟨Or.inl hcomplete, Or.inl hidle⟩
      rw [heq, if_neg hgoOn, ih hnot hrest, outputOf_cons, String.append_assoc]

/-- Messages with another ID make no difference. -/
theorem readResult_filter :
    session.readResult code context messageId ending
      (messages.filter (IsOwn session.codec messageId)) result complete idle =
      session.readResult code context messageId ending messages result complete idle := by
  induction messages generalizing result complete idle with
  | nil => rfl
  | cons message messages ih =>
    by_cases hown : IsOwn session.codec messageId message
    · rw [List.filter_cons_of_pos (by simpa using hown), JupyterLabSession.readResult,
        JupyterLabSession.readResult]
      simp only [ih]
    · have hnone := contentOf_of_not_isOwn hown
      have hignored : IsIgnored session.codec messageId message :=
        ⟨parseMessage_of_not_isOwn hown, not_isReply (hnone _), not_isIdle (hnone _),
          streamText_of_none (hnone _)⟩
      rw [List.filter_cons_of_neg (by simpa using hown), readResult_of_isIgnored hignored, ih]

/-! ### Calls -/

/-- What a call is meant to return: normally only after both markers, and then the output up to the
second of them. Messages with another ID are meant to make no difference. -/
structure ReturnsAll (session : JupyterLabSession) (code : String) (context : Option CodeContext)
    (messageId : String) (exchange : Exchange) : Prop where
  all : ∀ output, session.runPython code context messageId exchange = .returned output →
    ∃ before message after, exchange.messages = before ++ message :: after ∧
      Complete session.codec messageId false false (before ++ [message]) ∧
      ¬ Complete session.codec messageId false false before ∧
      output = outputOf session.codec messageId (before ++ [message])
  own : session.runPython code context messageId
      { exchange with messages := exchange.messages.filter (IsOwn session.codec messageId) } =
    session.runPython code context messageId exchange

/-- The socket is closed normally before both markers have been received, and no message fails the
call. -/
def IsTruncated (session : JupyterLabSession) (messageId : String) (exchange : Exchange) : Prop :=
  exchange.sent = true ∧ exchange.ending = .closed ∧
    ¬ Complete session.codec messageId false false exchange.messages ∧
    ∀ message ∈ exchange.messages, ¬ IsFailure session.codec messageId message

theorem not_complete_nil : ¬ Complete codec messageId false false [] := by
  rintro ⟨hcomplete | ⟨_, hmem, -⟩, -⟩
  · cases hcomplete
  · cases hmem

/-- A beginning has no more markers. -/
theorem Complete.append {after : List WebSocketMessage}
    (h : Complete codec messageId complete idle messages) :
    Complete codec messageId complete idle (messages ++ after) :=
  ⟨h.1.imp_right fun ⟨message, hmem, hreply⟩ ↦ ⟨message, List.mem_append_left _ hmem, hreply⟩,
    h.2.imp_right fun ⟨message, hmem, hidle⟩ ↦ ⟨message, List.mem_append_left _ hmem, hidle⟩⟩

end Reading

/-! ### A socket that is closed too early -/

namespace Sample

/-- A JSON object with one text, or with nothing. -/
def dumps (value : Json) : String :=
  (value.items.bind List.head?).elim "\x7b\x7d" fun item ↦
    "\x7b\"" ++ item.1 ++ "\": \"" ++ item.2.text.getD "" ++ "\"\x7d"

/-- Output for the execution with the message ID `a`. -/
def output : KernelMessage where
  channel := "iopub"
  header := .object [("msg_type", .string "stream")]
  parentHeader := .object [("msg_id", .string "a")]
  metadata := .object []
  content := .object [("text", .string "1")]

/-- The JSON of this message. -/
def outputJson : JsonCodec where
  loads bytes := [output.header, output.parentHeader, output.metadata, output.content].find? fun value ↦
    Bytes.encode (dumps value) = bytes
  dumps := dumps

def session : JupyterLabSession := ⟨"rachel", "b", outputJson⟩

/-- The socket is closed after some output. -/
def truncated : Exchange := ⟨true, [encodeWebsocketMessage outputJson output], .closed⟩

theorem decode_output : decodeWebsocketMessage outputJson (encodeWebsocketMessage outputJson output) =
    some output := by
  refine decodeWebsocketMessage_encode outputJson output ?_ (by decide)
  simp only [List.forall_mem_cons, List.not_mem_nil, false_implies, implies_true, and_true]
  exact ⟨rfl, rfl, rfl, rfl⟩

theorem contentOf_output (msgType : String) :
    contentOf outputJson "a" (encodeWebsocketMessage outputJson output) msgType =
      if some "stream" = some msgType then some output.content else none := by
  rw [contentOf, decode_output, Option.bind_some]
  exact if_congr (and_iff_right rfl) rfl rfl

end Sample

end Nublado.Client
