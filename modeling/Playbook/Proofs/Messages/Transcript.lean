import Playbook.Proofs.Messages.Naming

/-!
# `Proofs.Messages.Transcript` — what a session asks the service

A session's transcript gets the prompt as soon as an answer to it is asked for, and the text of the answer once it has been read to its
end. An exchange that fails leaves its prompt behind without an answer. So what the service is asked alternates between the user and
the assistant for as long as no exchange of the session has failed, and from the first failure on it never does again.

## Contents
- **Requests.** `Service.recorded`, the service with all that it has been asked.
- **Exchanges.** `Opening`, `Exchange`, `Desk`; `Desk.Reached` lets those of one session follow one another and all others overlap.
- **Messages.** `Exchange.messages` of one exchange, `conversation` of many; `alternates`.
- **Steps.** `Desk.Kept`, what holds at every moment, kept by the beginning of an exchange (`Kept.begin`) and its end (`Kept.finish`).
- **All exchanges.** `Desk.Reached.kept` and `requests_told`.
-/

namespace Playbook

/-- Turns of a stream are read before what follows them. -/
theorem TurnStream.read_turns {τ : Type} (leave : τ → τ) (turns : List Turn) (later : List (Nat × Except Failure Turn))
    (s : τ) :
    (TurnStream.ofList leave (turns.map (fun t => (0, .ok t)) ++ later)).read s =
      (turns.map .ok ++ ((TurnStream.ofList leave later).read s).1, ((TurnStream.ofList leave later).read s).2) := by
  induction turns with
  | nil => rfl
  | cons t rest ih =>
    have hread : (TurnStream.ofList leave ((t :: rest).map (fun t => (0, .ok t)) ++ later)).read s =
        (let r := (TurnStream.ofList leave (rest.map (fun t => (0, .ok t)) ++ later)).read s; (.ok t :: r.1, r.2)) := rfl
    rw [hread, ih]
    rfl

namespace Messages

variable {ρ : Type}

/-! ## Requests -/

/-- The service with all that it has been asked. -/
def Service.recorded (v : Service ρ) : Service (ρ × List Http.Request) where
  config := v.config
  peer := ⟨fun q s => ((v.peer.exchange q s.1).1, (v.peer.exchange q s.1).2, s.2 ++ [q])⟩
  newId := v.newId

/-! ## Exchanges -/

/-- How a session is opened. -/
inductive Opening where
  | create (args : SessionArgs)
  | resume (args : SessionArgs) (id : String)

/-- Open a session. -/
def Opening.run {τ η : Type} (b : Backend τ η) : Opening → τ → Except Failure η × τ
  | .create args => b.create args
  | .resume args id => b.resume args id

/-- A prompt that was sent, and what comes back for it. -/
structure Exchange (ρ : Type) where
  /-- The session, as it was opened. -/
  session : Session
  prompt : String
  reply : Http.Reply
  /-- The answer, as it is read. -/
  stream : TurnStream (State (ρ × List Http.Request))

namespace Exchange

/-- Whether the answer is whole. -/
def succeeded (e : Exchange ρ) : Bool :=
  (answer e.reply).2.isOk

/-- What an exchange adds to the transcript of its session: the prompt, and the text of the answer if it is whole. -/
def messages (e : Exchange ρ) : List Message :=
  ⟨.user, e.prompt⟩ ::
    match (answer e.reply).2 with
    | .ok text => [⟨.assistant, text⟩]
    | .error _ => []

end Exchange

/-- A backend at work: its state, the exchanges that have begun and which of them have been read to their end. -/
structure Desk (ρ : Type) where
  state : State (ρ × List Http.Request)
  /-- The exchanges, in the order in which they began. -/
  exchanges : List (Exchange ρ)
  /-- The positions of those that have been read to their end. -/
  heard : List Nat

namespace Desk

/-- The desk before the first session. -/
def fresh (peer : ρ) : Desk ρ :=
  ⟨.fresh (peer, []), [], []⟩

/-- What the service has been asked, a request for each exchange. -/
def requests (d : Desk ρ) : List Http.Request :=
  d.state.peer.2

/-- All exchanges of a session have been read to their end. -/
def Quiet (d : Desk ρ) (id : String) : Prop :=
  ∀ i e, d.exchanges[i]? = some e → e.session.id = id → i ∈ d.heard

/-- What a backend can have come to, if the exchanges of one session follow one another. Those of other sessions may overlap, and need
    not be read to their end. -/
inductive Reached (v : Service ρ) (id : String) : Desk ρ → Prop where
  | fresh (peer : ρ) : Reached v id (fresh peer)
  /-- A session is opened, is sent a prompt, and its answer is asked for. -/
  | begin {d : Desk ρ} (hd : Reached v id d) (opening : Opening) (prompt : String) {opened sent taken : Session}
      {st st' st'' : State (ρ × List Http.Request)} {stream : TurnStream (State (ρ × List Http.Request))}
      (hopen : opening.run v.recorded.backend d.state = (.ok opened, st))
      (hsend : v.recorded.backend.send prompt opened st = (.ok (), sent, st'))
      (hstream : v.recorded.backend.stream sent st' = (.ok stream, taken, st''))
      (hquiet : opened.id = id → d.Quiet id) :
      Reached v id ⟨st'', d.exchanges ++ [⟨opened, prompt, v.recorded.replyTo opened prompt st', stream⟩], d.heard⟩
  /-- An answer is read to its end. -/
  | finish {d : Desk ρ} (hd : Reached v id d) {i : Nat} {e : Exchange ρ} (he : d.exchanges[i]? = some e)
      (hnew : i ∉ d.heard) :
      Reached v id ⟨(e.stream.read d.state).2, d.exchanges, i :: d.heard⟩

end Desk

/-! ## Messages -/

/-- What the exchanges of a session add to its transcript, one after another. -/
def conversation (id : String) (exchanges : List (Exchange ρ)) : List Message :=
  (exchanges.filter (·.session.id == id)).flatMap (·.messages)

/-- Messages alternate between the user and the assistant; the first one and the last one are the user's. -/
def alternates : List Message → Bool
  | [] => false
  | [m] => m.role == .user
  | m :: m' :: rest => m.role == .user && m'.role == .assistant && alternates rest

theorem conversation_append (id : String) (exchanges later : List (Exchange ρ)) :
    conversation id (exchanges ++ later) = conversation id exchanges ++ conversation id later := by
  rw [conversation, List.filter_append, List.flatMap_append]
  rfl

theorem conversation_single {id : String} {e : Exchange ρ} (he : e.session.id = id) :
    conversation id [e] = e.messages := by
  have hkept : [e].filter (·.session.id == id) = [e] := List.filter_eq_self.2 fun x hx => by simp_all
  rw [conversation, hkept, List.flatMap_singleton]

theorem conversation_other {id : String} {exchanges : List (Exchange ρ)} (h : ∀ e ∈ exchanges, e.session.id ≠ id) :
    conversation id exchanges = [] := by
  have hnone : exchanges.filter (·.session.id == id) = [] :=
    List.filter_eq_nil_iff.2 fun e he => by simpa using h e he
  rw [conversation, hnone, List.flatMap_nil]

namespace Exchange

variable {e : Exchange ρ} {exchanges : List (Exchange ρ)}

theorem messages_of_succeeded (h : e.succeeded = true) :
    ∃ text, e.messages = [⟨.user, e.prompt⟩, ⟨.assistant, text⟩] := by
  unfold succeeded at h
  unfold messages
  cases hanswer : (answer e.reply).2 with
  | ok text => exact ⟨text, rfl⟩
  | error f =>
    rw [hanswer] at h
    cases h

theorem messages_of_failed (h : e.succeeded = false) : e.messages = [⟨.user, e.prompt⟩] := by
  unfold succeeded at h
  unfold messages
  cases hanswer : (answer e.reply).2 with
  | ok text =>
    rw [hanswer] at h
    cases h
  | error f => rfl

/-- A prompt after some exchanges is the first of their messages, or comes after a first message that is a prompt too. -/
theorem flatMap_messages_first (exchanges : List (Exchange ρ)) (prompt : String) :
    ∃ first rest, exchanges.flatMap messages ++ [⟨.user, prompt⟩] = ⟨.user, first⟩ :: rest := by
  cases exchanges with
  | nil => exact ⟨prompt, [], rfl⟩
  | cons e rest => exact ⟨e.prompt, _, rfl⟩

/-- Messages before a prompt alternate if and only if no exchange among them has failed. -/
theorem alternates_messages (exchanges : List (Exchange ρ)) (prompt : String) :
    alternates (exchanges.flatMap messages ++ [⟨.user, prompt⟩]) = exchanges.all succeeded := by
  induction exchanges with
  | nil => rfl
  | cons e rest ih =>
    rw [List.flatMap_cons, List.append_assoc, List.all_cons, ← ih]
    cases he : e.succeeded with
    | true =>
      obtain ⟨text, hmessages⟩ := messages_of_succeeded he
      rw [hmessages]
      rfl
    | false =>
      -- What follows the prompt without an answer is a prompt again.
      obtain ⟨first, later, hfirst⟩ := flatMap_messages_first rest prompt
      rw [messages_of_failed he, hfirst]
      rfl

theorem length_messages_succeeded (exchanges : List (Exchange ρ)) :
    (exchanges.flatMap messages).length =
      ((exchanges.filter succeeded).flatMap messages).length + (exchanges.filter (!·.succeeded)).length := by
  induction exchanges with
  | nil => rfl
  | cons e rest ih =>
    cases he : e.succeeded with
    | true =>
      simp [he, ih]
      omega
    | false =>
      simp [he, ih, messages_of_failed he]
      omega

/-- Messages are those of the exchanges that have succeeded if and only if no exchange has failed. -/
theorem messages_eq_succeeded_iff (exchanges : List (Exchange ρ)) :
    exchanges.flatMap messages = (exchanges.filter succeeded).flatMap messages ↔ exchanges.all succeeded = true := by
  constructor
  · intro h
    have hlength := length_messages_succeeded exchanges
    rw [h] at hlength
    have hnone : exchanges.filter (!·.succeeded) = [] := List.length_eq_zero_iff.1 (by omega)
    rw [List.filter_eq_nil_iff] at hnone
    exact List.all_eq_true.2 fun e he => by simpa using hnone e he
  · intro h
    rw [List.filter_eq_self.2 (List.all_eq_true.1 h)]

end Exchange

/-! ## Steps -/

namespace State

variable (st : State ρ) (id : String) (m : Message)

theorem transcript_push : (st.push id m).transcript id = st.transcript id ++ [m] := by
  rw [transcript, push, KeyMap.get?_insert_self]
  rfl

theorem transcript_push_of_ne {other : String} (h : other ≠ id) : (st.push id m).transcript other = st.transcript other := by
  rw [transcript, push, KeyMap.get?_insert_of_ne h]
  rfl

end State

namespace Exchange

/-- What becomes of the backend when the answer has been read to its end. -/
def leave (e : Exchange ρ) (st : State (ρ × List Http.Request)) : State (ρ × List Http.Request) :=
  match (answer e.reply).2 with
  | .ok text => st.push e.session.id ⟨.assistant, text⟩
  | .error _ => st

/-- The answer can be read: it fails if and only if it is not whole, and a whole one is kept. -/
def Readable (e : Exchange ρ) : Prop :=
  ∀ st, (e.stream.read st).1.all (·.isOk) = e.succeeded ∧ (e.stream.read st).2 = e.leave st

theorem readable_of_failed {e : Exchange ρ} {turns : List Turn} {f : Failure} (hanswer : (answer e.reply).2 = .error f)
    (hstream : e.stream = .ofList id (turns.map (fun t => (0, .ok t)) ++ [(0, .error f)])) : e.Readable := by
  intro st
  have hsucceeded : e.succeeded = false := by rw [succeeded, hanswer]; rfl
  have hleave : e.leave st = st := by rw [leave, hanswer]
  rw [hstream, TurnStream.read_turns, hsucceeded, hleave]
  exact ⟨by simp [TurnStream.read, TurnStream.ofList, Except.isOk, Except.toBool], rfl⟩

theorem readable_of_succeeded {e : Exchange ρ} {turns : List Turn} {text : String}
    (hanswer : (answer e.reply).2 = .ok text)
    (hstream : e.stream = .ofList (·.push e.session.id ⟨.assistant, text⟩) (turns.map fun t => (0, .ok t))) :
    e.Readable := by
  intro st
  have hsucceeded : e.succeeded = true := by rw [succeeded, hanswer]; rfl
  have hleave : e.leave st = st.push e.session.id ⟨.assistant, text⟩ := by rw [leave, hanswer]
  have hread := TurnStream.read_turns (·.push e.session.id ⟨.assistant, text⟩) turns [] st
  rw [List.append_nil] at hread
  rw [hstream, hread, hsucceeded, hleave]
  exact ⟨by simp [TurnStream.read, TurnStream.ofList, Except.isOk, Except.toBool], rfl⟩

theorem leave_requests (e : Exchange ρ) (st : State (ρ × List Http.Request)) : (e.leave st).peer = st.peer := by
  unfold leave
  split <;> rfl

/-- At its end an exchange adds to the transcript of its session what is missing there, and nothing to any other. -/
theorem leave_transcript (e : Exchange ρ) {st : State (ρ × List Http.Request)} {before : List Message}
    (h : st.transcript e.session.id = before ++ [⟨.user, e.prompt⟩]) :
    (e.leave st).transcript e.session.id = before ++ e.messages := by
  unfold leave messages
  cases (answer e.reply).2 with
  | ok text =>
    show (st.push e.session.id ⟨.assistant, text⟩).transcript e.session.id = _
    rw [State.transcript_push, h, List.append_assoc]
    rfl
  | error f => exact h

theorem leave_transcript_of_ne (e : Exchange ρ) (st : State (ρ × List Http.Request)) {id : String}
    (h : e.session.id ≠ id) : (e.leave st).transcript id = st.transcript id := by
  unfold leave
  split
  · exact State.transcript_push_of_ne _ _ _ h.symm
  · rfl

end Exchange

namespace Service

variable (v : Service ρ) {opened sent taken : Session} {prompt : String} {st st' : State (ρ × List Http.Request)}
  {stream : TurnStream (State (ρ × List Http.Request))}

/-- A session that is opened has not been asked for an answer; opening one leaves transcripts and requests as they were. -/
theorem run_opening (opening : Opening) (h : opening.run v.recorded.backend st = (.ok opened, st')) :
    opened.streamed = false ∧ (∀ id, st'.transcript id = st.transcript id) ∧ st'.peer = st.peer := by
  cases opening <;> cases h <;> exact ⟨rfl, fun _ => rfl, rfl⟩

/-- Once an answer is asked for, the prompt is in the transcript, and the transcript is what the service is asked. -/
theorem stream_taken (hfresh : opened.streamed = false)
    (h : v.recorded.backend.stream { opened with pending := some prompt } st = (.ok stream, taken, st')) :
    st'.transcript opened.id = st.transcript opened.id ++ [⟨.user, prompt⟩] ∧
      (∀ id, opened.id ≠ id → st'.transcript id = st.transcript id) ∧
      st'.peer.2 = st.peer.2 ++ [request v.config opened (st.transcript opened.id ++ [⟨.user, prompt⟩])] ∧
      (Exchange.mk opened prompt (v.recorded.replyTo opened prompt st) stream).Readable := by
  have hpushed := st.transcript_push opened.id ⟨.user, prompt⟩
  simp only [backend, Service.stream, hfresh, Bool.false_eq_true, if_false] at h
  -- The prompt is noted and the transcript sent before it is known how the service answers.
  split at h
  · rename_i e hanswer
    cases h
    refine ⟨hpushed, fun id hne => State.transcript_push_of_ne _ _ _ hne.symm, ?_, ?_⟩
    · rw [← hpushed]
      rfl
    · exact Exchange.readable_of_failed hanswer rfl
  · rename_i text hanswer
    cases h
    refine ⟨hpushed, fun id hne => State.transcript_push_of_ne _ _ _ hne.symm, ?_, ?_⟩
    · rw [← hpushed]
      rfl
    · exact Exchange.readable_of_succeeded hanswer rfl

end Service

namespace Desk

variable {v : Service ρ} {id : String} {d : Desk ρ} {i : Nat} {e : Exchange ρ}

/-- An exchange of a session that has not been read to its end. There is one at most, no other one of the session comes after it, and
    its prompt is the last message of the transcript. -/
structure Underway (d : Desk ρ) (id : String) (i : Nat) (e : Exchange ρ) : Prop where
  begun : d.exchanges[i]? = some e
  own : e.session.id = id
  only : ∀ j x, d.exchanges[j]? = some x → x.session.id = id → j ∉ d.heard → j = i
  last : conversation id (d.exchanges.drop (i + 1)) = []
  transcript : d.state.transcript id = conversation id (d.exchanges.take i) ++ [⟨.user, e.prompt⟩]

/-- The transcript of a session tells what was said in it: all of it if nothing is underway, and else all but the answer that is. -/
def Told (d : Desk ρ) (id : String) : Prop :=
  d.Quiet id ∧ d.state.transcript id = conversation id d.exchanges ∨ ∃ i e, i ∉ d.heard ∧ d.Underway id i e

/-- What holds at every moment: each exchange of a session has asked for an answer to all that came before it in the session, and that
    is what the transcript tells. -/
structure Kept (v : Service ρ) (id : String) (d : Desk ρ) : Prop where
  counted : d.requests.length = d.exchanges.length
  begun : ∀ i ∈ d.heard, i < d.exchanges.length
  asked : ∀ i e, d.exchanges[i]? = some e → e.session.id = id →
    d.requests[i]? =
      some (request v.config e.session (conversation id (d.exchanges.take i) ++ [⟨.user, e.prompt⟩]))
  readable : ∀ e ∈ d.exchanges, e.Readable
  told : d.Told id

/-- The exchanges before one, the exchange and those after it. -/
theorem exchanges_cut (he : d.exchanges[i]? = some e) :
    d.exchanges.take i ++ [e] ++ d.exchanges.drop (i + 1) = d.exchanges := by
  obtain ⟨hlt, hget⟩ := List.getElem?_eq_some_iff.1 he
  rw [List.append_assoc, List.singleton_append, ← hget, ← List.drop_eq_getElem_cons hlt, List.take_append_drop]

theorem Kept.fresh (v : Service ρ) (id : String) (peer : ρ) : Kept v id (Desk.fresh peer) where
  counted := rfl
  begun _ h := nomatch h
  asked _ _ h := nomatch h
  readable _ h := nomatch h
  told := .inl ⟨fun _ _ h => (nomatch h), rfl⟩

/-- An exchange with one more after all others is that one or one of the others. -/
theorem getElem?_begun {exchanges : List (Exchange ρ)} {x : Exchange ρ} {j : Nat}
    (h : (exchanges ++ [e])[j]? = some x) : exchanges[j]? = some x ∨ j = exchanges.length ∧ x = e := by
  by_cases hj : j < exchanges.length
  · rw [List.getElem?_append_left hj] at h
    exact .inl h
  · obtain rfl : j = exchanges.length := by
      have hlt := (List.getElem?_eq_some_iff.1 h).1
      rw [List.length_append, List.length_singleton] at hlt
      omega
    rw [List.getElem?_concat_length] at h
    exact .inr ⟨rfl, (Option.some.inj h).symm⟩

section Begin

variable {st : State (ρ × List Http.Request)}

/-- An exchange of the session begins when nothing of the session is underway. -/
theorem told_begin (hquiet : d.Quiet id) (hid : e.session.id = id)
    (hstate : st.transcript id = conversation id d.exchanges ++ [⟨.user, e.prompt⟩])
    (hbegun : ∀ i ∈ d.heard, i < d.exchanges.length) :
    Told ⟨st, d.exchanges ++ [e], d.heard⟩ id := by
  refine .inr ⟨d.exchanges.length, e, fun hmem => Nat.lt_irrefl _ (hbegun _ hmem), ?_⟩
  refine ⟨List.getElem?_concat_length, hid, ?_, ?_, ?_⟩
  · intro j x hx hxid hunheard
    rcases getElem?_begun hx with hx | ⟨hj, _⟩
    · exact absurd (hquiet j x hx hxid) hunheard
    · exact hj
  · have hnone : (d.exchanges ++ [e]).drop (d.exchanges.length + 1) = [] := List.drop_eq_nil_of_le (by simp)
    rw [hnone]
    rfl
  · rw [List.take_left]
    exact hstate

/-- What begins in another session changes nothing. -/
theorem told_begin_other (h : d.Told id) (hid : e.session.id ≠ id) (hstate : st.transcript id = d.state.transcript id) :
    Told ⟨st, d.exchanges ++ [e], d.heard⟩ id := by
  have hnothing : conversation id [e] = [] := conversation_other fun x hx => List.mem_singleton.1 hx ▸ hid
  rcases h with ⟨hquiet, htranscript⟩ | ⟨i, x, hunheard, hx⟩
  · refine .inl ⟨fun j y hy hyid => ?_, ?_⟩
    · rcases getElem?_begun hy with hy | ⟨_, rfl⟩
      · exact hquiet j y hy hyid
      · exact absurd hyid hid
    · rw [conversation_append, hnothing, List.append_nil]
      exact hstate.trans htranscript
  · have hlt : i < d.exchanges.length := (List.getElem?_eq_some_iff.1 hx.begun).1
    refine .inr ⟨i, x, hunheard, ?_, hx.own, ?_, ?_, ?_⟩
    · exact (List.getElem?_append_left hlt).trans hx.begun
    · intro j y hy hyid hj
      rcases getElem?_begun hy with hy | ⟨_, rfl⟩
      · exact hx.only j y hy hyid hj
      · exact absurd hyid hid
    · rw [List.drop_append_of_le_length hlt, conversation_append, hx.last, hnothing]
      rfl
    · rw [List.take_append_of_le_length (Nat.le_of_lt hlt)]
      exact hstate.trans hx.transcript

/-- An exchange begins, one of the session if nothing of the session is underway. -/
theorem Kept.begin (h : d.Kept v id) (hquiet : e.session.id = id → d.Quiet id) (hreadable : e.Readable)
    (hown : st.transcript e.session.id = d.state.transcript e.session.id ++ [⟨.user, e.prompt⟩])
    (hother : ∀ other, e.session.id ≠ other → st.transcript other = d.state.transcript other)
    (hasked : st.peer.2 = d.state.peer.2 ++
      [request v.config e.session (d.state.transcript e.session.id ++ [⟨.user, e.prompt⟩])]) :
    Kept v id ⟨st, d.exchanges ++ [e], d.heard⟩ := by
  -- If the exchange is one of the session, the transcript holds all that was said before it.
  have hbefore : e.session.id = id → d.state.transcript e.session.id = conversation id d.exchanges := by
    intro hid
    rcases h.told with ⟨_, htranscript⟩ | ⟨i, x, hunheard, hx⟩
    · rw [hid, htranscript]
    · exact absurd (hquiet hid i x hx.begun hx.own) hunheard
  have hlength : d.state.peer.2.length = d.exchanges.length := h.counted
  refine ⟨?_, ?_, ?_, List.forall_mem_append.2 ⟨h.readable, List.forall_mem_singleton.2 hreadable⟩, ?_⟩
  · show st.peer.2.length = (d.exchanges ++ [e]).length
    rw [hasked, List.length_append, List.length_append, hlength]
    rfl
  · intro i hi
    exact Nat.lt_of_lt_of_le (h.begun i hi) (by simp)
  · intro i x hx hid
    show st.peer.2[i]? = _
    rw [hasked]
    rcases getElem?_begun hx with hx | ⟨rfl, rfl⟩
    · have hlt : i < d.exchanges.length := (List.getElem?_eq_some_iff.1 hx).1
      rw [List.getElem?_append_left (hlength ▸ hlt), List.take_append_of_le_length (Nat.le_of_lt hlt)]
      exact h.asked i x hx hid
    · rw [List.take_left, hbefore hid, ← hlength, List.getElem?_concat_length]
  · by_cases hid : e.session.id = id
    · have hstate : st.transcript id = conversation id d.exchanges ++ [⟨.user, e.prompt⟩] := by
        rw [← hbefore hid, ← hown, hid]
      exact told_begin (hquiet hid) hid hstate h.begun
    · exact told_begin_other h.told hid (hother id hid)

end Begin

/-- An exchange is read to its end: if it is one of the session, it is the one underway, and its answer comes behind its prompt. -/
theorem told_finish (h : d.Told id) (he : d.exchanges[i]? = some e) (hnew : i ∉ d.heard) :
    Told ⟨e.leave d.state, d.exchanges, i :: d.heard⟩ id := by
  by_cases hid : e.session.id = id
  · subst hid
    -- At most one exchange of the session is unheard, so the one underway is this one.
    rcases h with ⟨hquiet, _⟩ | ⟨j, x, _, hx⟩
    · exact absurd (hquiet i e he rfl) hnew
    · obtain rfl : i = j := hx.only i e he rfl hnew
      obtain rfl : e = x := Option.some.inj (he.symm.trans hx.begun)
      refine .inl ⟨fun k y hy hyid => ?_, ?_⟩
      · by_cases hk : k ∈ d.heard
        · exact List.mem_cons_of_mem _ hk
        · exact List.mem_cons.2 (.inl (hx.only k y hy hyid hk))
      · have hall := congrArg (conversation e.session.id) (exchanges_cut he)
        rw [conversation_append, conversation_append, hx.last, conversation_single rfl, List.append_nil] at hall
        exact (e.leave_transcript hx.transcript).trans hall
  · have hstate : (e.leave d.state).transcript id = d.state.transcript id := e.leave_transcript_of_ne d.state hid
    rcases h with ⟨hquiet, htranscript⟩ | ⟨j, x, hunheard, hx⟩
    · exact .inl ⟨fun k y hy hyid => List.mem_cons_of_mem _ (hquiet k y hy hyid), hstate.trans htranscript⟩
    · refine .inr ⟨j, x, ?_, hx.begun, hx.own, ?_, hx.last, hstate.trans hx.transcript⟩
      · rintro (_ | ⟨_, hmem⟩)
        · exact hid (Option.some.inj (he.symm.trans hx.begun) ▸ hx.own)
        · exact hunheard hmem
      · intro k y hy hyid hk
        exact hx.only k y hy hyid fun hmem => hk (List.mem_cons_of_mem _ hmem)

theorem Kept.finish (h : d.Kept v id) (he : d.exchanges[i]? = some e) (hnew : i ∉ d.heard) :
    Kept v id ⟨e.leave d.state, d.exchanges, i :: d.heard⟩ := by
  have hrequests : (e.leave d.state).peer = d.state.peer := e.leave_requests d.state
  refine ⟨?_, ?_, ?_, h.readable, told_finish h.told he hnew⟩
  · show (e.leave d.state).peer.2.length = _
    rw [hrequests]
    exact h.counted
  · exact List.forall_mem_cons.2 ⟨(List.getElem?_eq_some_iff.1 he).1, h.begun⟩
  · intro j x hx hid
    show (e.leave d.state).peer.2[j]? = _
    rw [hrequests]
    exact h.asked j x hx hid

/-- A dialogue that is reached keeps to `Kept`, whatever has happened to it. -/
theorem Reached.kept (hd : Reached v id d) : d.Kept v id := by
  induction hd with
  | fresh peer => exact .fresh v id peer
  | @begin d _ opening prompt opened sent taken st st' st'' stream hopen hsend hstream hquiet ih =>
    cases hsend
    obtain ⟨hfresh, hsame, hpeer⟩ := v.run_opening opening hopen
    obtain ⟨hown, hother, hasked, hreadable⟩ := v.stream_taken hfresh hstream
    refine ih.begin (e := ⟨opened, prompt, _, stream⟩) hquiet hreadable ?_ (fun other hne => ?_) ?_
    · rw [hown, hsame]
    · rw [hother other hne, hsame]
    · rw [hasked, hsame, hpeer]
  | @finish d _ i e he hnew ih =>
    rw [(ih.readable e (List.mem_of_getElem? he) d.state).2]
    exact ih.finish he hnew

/-- Of the exchanges of one session that follow one another, each asks for an answer to the prompts before it, each with the text of its
    answer if that was whole, and to its own prompt. What it asks alternates, and tells of no exchange but those that have succeeded, if
    and only if none before it has failed; and an exchange has failed if and only if there is a failure to be read in its answer. -/
theorem requests_told (hd : Reached v id d) (he : d.exchanges[i]? = some e) (hid : e.session.id = id) :
    let before := (d.exchanges.take i).filter (·.session.id == id)
    let messages := before.flatMap Exchange.messages ++ [⟨.user, e.prompt⟩]
    d.requests[i]? = some (request v.config e.session messages) ∧
      (alternates messages = true ↔ ∀ x ∈ before, x.succeeded = true) ∧
      (messages = (before.filter Exchange.succeeded).flatMap Exchange.messages ++ [⟨.user, e.prompt⟩] ↔
        ∀ x ∈ before, x.succeeded = true) ∧
      ∀ st, (∀ t ∈ (e.stream.read st).1, t.isOk = true) ↔ e.succeeded = true := by
  intro before messages
  have hkept := hd.kept
  refine ⟨hkept.asked i e he hid, ?_, ?_, fun st => ?_⟩
  · rw [Exchange.alternates_messages before e.prompt, List.all_eq_true]
  · rw [List.append_left_inj, Exchange.messages_eq_succeeded_iff before, List.all_eq_true]
  · rw [← (hkept.readable e (List.mem_of_getElem? he) st).1, List.all_eq_true]

/-- Nobody answers the first prompt, so what is asked with the second one does not alternate. -/
theorem requests_told_unanswered :
    let v : Service Unit := ⟨Config.standard, Http.Peer.nobody, fun n => "session-" ++ toString n⟩
    ∃ d e, Reached v "s-1" d ∧ d.exchanges[1]? = some e ∧
      d.requests[1]? = some (request v.config e.session [⟨.user, "first"⟩, ⟨.user, "second"⟩]) ∧
      alternates [⟨.user, "first"⟩, ⟨.user, "second"⟩] = false := by
  intro v
  let args : SessionArgs := ⟨"run-1", "user-1", "a", none, none, "T"⟩
  have hfirst := Reached.begin (@Reached.fresh _ v "s-1" ()) (.resume args "s-1") "first" rfl rfl rfl
    (fun _ _ _ h => nomatch h)
  have hheard := Reached.finish hfirst (i := 0) rfl (List.not_mem_nil)
  have hsecond := Reached.begin hheard (.resume args "s-1") "second" rfl rfl rfl
    (fun _ i _ hi _ => List.mem_singleton.2 (Nat.lt_one_iff.1 (List.getElem?_eq_some_iff.1 hi).1))
  exact ⟨_, _, hsecond, rfl, (requests_told hsecond rfl rfl).1, rfl⟩

end Desk

end Messages

end Playbook
