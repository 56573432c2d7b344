import Playbook.Backend.Echo
import Playbook.Proofs.Run.Straight
import Playbook.Proofs.Session.Tally
import Playbook.Proofs.Text.Trim

/-!
# `Proofs.Session.Echo` — what a session gives that answers with its prompt

An echo puts its prompt between the marks of a result and reports nothing, so the result of the session is the prompt again. Only a
closing mark in the prompt cuts it short; opening marks and markers of events in it are text like any other.

## Contents
- **Wrapped prompts.** `EchoSession.Echoes`, what comes back of a prompt; `resultSpan_wrapped`.
- **Whole calls.** `straight_openEcho`, `straight_hearEcho`, `leads_askEcho`.
- **Handles.** `Backend.Use`, `Backend.useAll` and `Backend.Streams`; `Use.lastPrompt`, told from the uses alone.
- **Uses.** `EchoSession.Used` is what an echo is after some uses: `Used.use` for one more, `used_useAll` for any.
- **Echoes.** `Backend.echo_returns`.
-/

namespace Playbook

open Text (FirstAt splitFirst_eq_some_iff splitFirst_needle trim trimmed)

variable {τ η κ δ : Type}

/-! ## Wrapped prompts -/

/-- What comes back of a prompt: the part before the first closing mark in it, or all of it if there is none, without blanks around it. -/
inductive EchoSession.Echoes (prompt : String) : String → Prop where
  | cut {before after : List Char} (h : FirstAt resultClose prompt.toList before after) :
      Echoes prompt (String.ofList (trim before))
  | whole (h : ¬resultClose <:+: prompt.toList) : Echoes prompt (trimmed prompt)

/-- Nothing else comes back. -/
theorem EchoSession.Echoes.unique {prompt result result' : String} (h : Echoes prompt result) (h' : Echoes prompt result') :
    result = result' := by
  cases h with
  | cut h =>
    cases h' with
    | cut h' => rw [(h.unique h').1]
    | whole h' => exact absurd h.isInfix h'
  | whole h =>
    cases h' with
    | cut h' => exact absurd h'.isInfix h
    | whole => rfl

theorem resultClose_eq : resultClose = '<' :: "/result>".toList := by decide

theorem not_infix_cons_feed {s : List Char} (h : ¬resultClose <:+: s) : ¬resultClose <:+: '\n' :: s := by
  intro hheld
  rcases List.infix_cons_iff.1 hheld with ⟨rest, hrest⟩ | hheld
  · exact absurd (List.cons.inj hrest).1 (by decide)
  · exact h hheld

theorem not_infix_concat_feed {s : List Char} (h : ¬resultClose <:+: s) : ¬resultClose <:+: s ++ ['\n'] := by
  intro hheld
  rcases List.infix_concat_iff.1 hheld with ⟨front, hfront⟩ | hheld
  · have hlast := congrArg List.getLast? hfront
    have hmark : resultClose.getLast? = some '>' := by decide
    rw [List.getLast?_append, List.getLast?_concat, hmark] at hlast
    cases hlast
  · exact h hheld

/-- A closing mark is found behind a text that does not hold it. -/
theorem firstAt_resultClose {s : List Char} (h : ¬resultClose <:+: s) (after : List Char) :
    FirstAt resultClose (s ++ resultClose ++ after) s after := by
  rw [resultClose_eq] at h ⊢
  exact splitFirst_eq_some_iff.1 (splitFirst_needle (by decide) h after)

/-- Between the marks that an echo puts around its prompt stands what comes back of the prompt. -/
theorem resultSpan_wrapped (prompt : String) :
    ∃ span, resultSpan ("<result>\n" ++ prompt ++ "\n</result>").toList = some span ∧ EchoSession.Echoes prompt (String.ofList span) := by
  have hwrapped : ("<result>\n" ++ prompt ++ "\n</result>").toList =
      resultOpen ++ ('\n' :: prompt.toList ++ '\n' :: resultClose) := by
    have hfront : "<result>\n".toList = resultOpen ++ ['\n'] := by decide
    have hback : "\n</result>".toList = '\n' :: resultClose := by decide
    rw [String.toList_append, String.toList_append, hfront, hback]
    simp only [List.append_assoc, List.cons_append, List.nil_append]
  have hopen : FirstAt resultOpen (resultOpen ++ ('\n' :: prompt.toList ++ '\n' :: resultClose)) []
      ('\n' :: prompt.toList ++ '\n' :: resultClose) := ⟨rfl, fun _ _ _ => Nat.zero_le _⟩
  rw [hwrapped]
  by_cases hmark : resultClose <:+: prompt.toList
  · obtain ⟨⟨before, after⟩, hfound⟩ := Option.ne_none_iff_exists'.1 (mt Text.splitFirst_eq_none_iff.1 (not_not.2 hmark))
    have hfirst := splitFirst_eq_some_iff.1 hfound
    have hclose := firstAt_resultClose (not_infix_cons_feed (hfirst.not_infix_before (by decide))) (after ++ '\n' :: resultClose)
    have hcut : '\n' :: prompt.toList ++ '\n' :: resultClose = '\n' :: before ++ resultClose ++ (after ++ '\n' :: resultClose) := by
      rw [hfirst.cut]
      simp
    refine ⟨trim ('\n' :: before), resultSpan_eq_some hopen (hcut ▸ hclose), ?_⟩
    rw [trim, Text.trimStart_cons_blank (by decide)]
    exact .cut hfirst
  · have hclose := firstAt_resultClose (not_infix_cons_feed (not_infix_concat_feed hmark)) []
    have hend : '\n' :: prompt.toList ++ '\n' :: resultClose = '\n' :: (prompt.toList ++ ['\n']) ++ resultClose ++ [] := by simp
    refine ⟨trim ('\n' :: (prompt.toList ++ ['\n'])), resultSpan_eq_some hopen (hend ▸ hclose), ?_⟩
    rw [trim, Text.trimStart_cons_blank (by decide), ← trim, Text.trim_append_blanks (List.forall_mem_singleton.2 rfl)]
    exact .whole hmark

/-- The prompt of a session begins with its title. -/
theorem renderPrompt_title (title : String) (a : Agent) (bindings : List Binding) :
    ∃ rest, renderPrompt title a bindings = "# Task\n" ++ title ++ rest := by
  unfold renderPrompt
  simp only [String.append_assoc]
  exact ⟨_, rfl⟩

/-! ## Whole calls -/

/-- What is heard of an echo gives back the prompt. -/
theorem EchoSession.echoes_reply (s : EchoSession) (prompt : String) :
    Echoes prompt ((s.reply prompt).foldl Tally.withTurn .empty).finalResult := by
  obtain ⟨span, hspan, hechoes⟩ := resultSpan_wrapped prompt
  have hresult : ((s.reply prompt).foldl Tally.withTurn .empty).resultText = none := by
    rw [reply, opening]
    cases s.resumed <;> rfl
  have htext : ((s.reply prompt).foldl Tally.withTurn .empty).text = "<result>\n" ++ prompt ++ "\n</result>" := by
    have hempty : ∀ text : String, "" ++ "" ++ text = text := fun text => String.empty_append
    rw [reply, opening]
    cases s.resumed <;> exact hempty _
  simp only [Tally.finalResult, hresult, htext, hspan]
  exact hechoes

namespace Host

section

variable (courier : Courier δ) (store : ContentStore κ)

/-- An echo is opened at once, anew or not. -/
theorem straight_openEcho (args : SessionArgs) (prior : Option String) (s : RunState Nat κ δ) :
    ∃ id resumed v,
      (openSession ⟨courier, .echo, store⟩ args prior).Straight s (.ok (.opened id resumed)) v := by
  cases prior with
  | none => exact ⟨_, _, _, .bind (.update _ s) (.bind (straight_perform (fun _ _ => rfl) rfl) (.ofExcept _ _))⟩
  | some id => exact ⟨_, _, _, .bind (.update _ s) (.bind (straight_perform (fun _ _ => rfl) rfl) (.ofExcept _ _))⟩

/-- A run that holds it hears its prompt. -/
theorem straight_hearEcho (agent : Agent) (title prompt sessionId : String) (resumed : Bool) (s : RunState Nat κ δ) :
    ∃ heard v,
      (hearSession ⟨courier, .echo, store⟩ agent title prompt (some sessionId) (.opened sessionId resumed)).Straight s (.ok heard) v ∧
      EchoSession.Echoes prompt heard.tally.finalResult := by
  let h : Host Nat EchoSession κ δ := ⟨courier, .echo, store⟩
  let session : EchoSession := { EchoSession.opened sessionId resumed with prompt := some prompt }
  let turns := session.reply prompt
  let start : RunState Nat κ δ := s.remember agent.name sessionId
  let heard := h.hearAll agent.name turns ⟨.empty, some sessionId⟩ start
  have hlisten : (h.listen agent.name (.ofTurns turns) ⟨.empty, some sessionId⟩).Straight start (.ok heard.1) heard.2 := by
    rw [TurnStream.ofTurns, ← List.append_nil (turns.map _)]
    exact straight_listen turns id [] (straight_finished id)
  have hsend : h.backend.send prompt (.opened sessionId resumed) s.backend = (.ok (), session, s.backend) := rfl
  have hstream : h.backend.stream session s.backend =
      (.ok (.ofTurns turns), { session with prompt := none, streamed := true }, s.backend) := rfl
  obtain ⟨backend, hwork⟩ := straight_hearSession (fun _ _ => rfl) (straight_converse (fun _ _ => rfl) hsend hstream hlisten)
  refine ⟨heard.1, _, hwork, ?_⟩
  rw [hearAll_tally]
  exact session.echoes_reply prompt

/-- A call that asks an echo comes to where its result is the prompt again, and its record is left. -/
theorem leads_askEcho (agent : Agent) (title prompt : String) (prior : Option String) (s : RunState Nat κ δ) :
    ∃ heard v,
      (askSession ⟨courier, .echo, store⟩ agent title prompt prior).Leads s (do
        recordHeard ⟨courier, .echo, store⟩ agent heard title
        return heard.tally.finalResult) v ∧
      EchoSession.Echoes prompt heard.tally.finalResult := by
  obtain ⟨id, resumed, u, hopen⟩ := straight_openEcho courier store
    ⟨courier.context.runId, courier.context.principalId, agent.name, agent.model, agent.prompt, title⟩ prior s
  obtain ⟨heard, v, hheard, hechoes⟩ := straight_hearEcho courier store agent title prompt id resumed u
  exact ⟨heard, v, hopen.hold.leads ((Script.Straight.ofExcept _ u).leads (hheard.leads (.refl _ v))), hechoes⟩

end

end Host

/-! ## Handles -/

namespace Backend

/-- Something that is done with an open session. -/
inductive Use where
  | send (prompt : String)
  | stream
  | close
  deriving DecidableEq

/-- What becomes of a session that is used, and of its backend. -/
def use (b : Backend τ η) (x : η × τ) : Use → η × τ
  | .send prompt => (b.send prompt x.1 x.2).2
  | .stream => (b.stream x.1 x.2).2
  | .close => (b.close x.1 x.2).2

/-- What becomes of them after some uses. -/
def useAll (b : Backend τ η) (x : η × τ) (uses : List Use) : η × τ :=
  uses.foldl b.use x

/-- One of some uses takes the answer, and gets it. -/
def Streams (b : Backend τ η) (x : η × τ) (uses : List Use) (i : Nat) : Prop :=
  uses[i]? = some .stream ∧
    ∃ turns, (b.stream (b.useAll x (uses.take i)).1 (b.useAll x (uses.take i)).2).1 = .ok turns

/-- The prompt that is sent. -/
def Use.prompt? : Use → Option String
  | .send prompt => some prompt
  | _ => none

/-- The last prompt that is sent before a session is closed, or an empty one. -/
def Use.lastPrompt (uses : List Use) : String :=
  ((uses.takeWhile (· ≠ .close)).filterMap prompt?).getLast?.getD ""

namespace Use

variable {uses : List Use}

/-- A session that has not been closed takes all that it is sent. -/
theorem takeWhile_open (h : close ∉ uses) (later : List Use) :
    (uses ++ later).takeWhile (· ≠ close) = uses ++ later.takeWhile (· ≠ close) := by
  refine List.takeWhile_append_of_pos fun u hu => ?_
  simpa using fun heq : u = close => h (heq ▸ hu)

/-- Until a session is closed its last prompt is the last that it was sent. -/
theorem lastPrompt_open (h : close ∉ uses) (later : List Use) :
    lastPrompt (uses ++ later) = ((uses ++ later.takeWhile (· ≠ close)).filterMap prompt?).getLast?.getD "" :=
  congrArg (fun taken : List Use => (taken.filterMap prompt?).getLast?.getD "") (takeWhile_open h later)

/-- What is sent to an open session is its last prompt. -/
theorem lastPrompt_send (h : close ∉ uses) (prompt : String) : lastPrompt (uses ++ [send prompt]) = prompt := by
  have htaken : [send prompt].takeWhile (· ≠ close) = [send prompt] := rfl
  rw [lastPrompt_open h, htaken, Tally.Step.filterMap_concat]
  simp [prompt?]

/-- Nothing that is done with a closed session changes its last prompt. -/
theorem lastPrompt_of_close (h : close ∈ uses) (u : Use) : lastPrompt (uses ++ [u]) = lastPrompt uses := by
  obtain ⟨front, back, rfl, hfront⟩ := List.eq_append_cons_of_mem h
  have hcut : ∀ later, lastPrompt (front ++ close :: later) = (front.filterMap prompt?).getLast?.getD "" := by
    intro later
    rw [lastPrompt_open hfront, List.takeWhile_cons_of_neg (by simp), List.append_nil]
  rw [List.append_assoc, List.cons_append, hcut, hcut]

/-- Only what is sent can change the last prompt. -/
theorem lastPrompt_of_prompt_none {u : Use} (hu : u.prompt? = none) (uses : List Use) :
    lastPrompt (uses ++ [u]) = lastPrompt uses := by
  by_cases h : close ∈ uses
  · exact lastPrompt_of_close h u
  · have hall := lastPrompt_open h []
    rw [List.append_nil, List.takeWhile_nil, List.append_nil] at hall
    rw [lastPrompt_open h, hall, List.filterMap_append]
    cases u with
    | send prompt => cases hu
    | stream | close => simp [prompt?]

end Use

end Backend

/-! ## Uses -/

namespace EchoSession

open Backend (Use)

/-- What an echo is after some uses. -/
structure Used (uses : List Use) (s : EchoSession) : Prop where
  closed : s.closed = true ↔ Use.close ∈ uses
  streamed : s.streamed = true ↔ Use.stream ∈ uses
  /-- Until its answer is taken it keeps the last prompt that it took. -/
  prompt : Use.stream ∉ uses → s.prompt.getD "" = Use.lastPrompt uses

theorem used_opened (id : String) (resumed : Bool) : Used [] (.opened id resumed) :=
  ⟨by simp [opened], by simp [opened], fun _ => rfl⟩

section

variable {uses : List Use} {s : EchoSession}

/-- A closed session takes no prompt. -/
theorem Used.send_closed (h : Used uses s) (hclosed : Use.close ∈ uses) (prompt : String) :
    s.send prompt = (Failure.raise (.adapter "echo" "session is closed"), s) :=
  if_pos (h.closed.2 hclosed)

/-- An open session takes any prompt. -/
theorem Used.send_open (h : Used uses s) (hopen : Use.close ∉ uses) (prompt : String) :
    s.send prompt = (.ok (), { s with prompt := some prompt }) :=
  if_neg (mt h.closed.1 hopen)

/-- A session whose answer was taken gives no other one. -/
theorem Used.stream_again (h : Used uses s) (hstreamed : Use.stream ∈ uses) :
    s.stream = (Failure.raise (.streamConsumed (some s.id)), s) :=
  if_pos (h.streamed.2 hstreamed)

/-- The answer that a session gives is the last prompt that it took. -/
theorem Used.stream_first (h : Used uses s) (hfirst : Use.stream ∉ uses) :
    s.stream = (.ok (s.reply (Use.lastPrompt uses)), { s with prompt := none, streamed := true }) := by
  rw [← h.prompt hfirst]
  exact if_neg (mt h.streamed.1 hfirst)

/-- A session that is sent another prompt is `Used` with one use more. -/
theorem Used.use_send (h : Used uses s) (prompt : String) : Used (uses ++ [.send prompt]) (s.send prompt).2 := by
  have hclose : Use.close ∈ uses ++ [.send prompt] ↔ Use.close ∈ uses := by simp
  have hstream : Use.stream ∈ uses ++ [.send prompt] ↔ Use.stream ∈ uses := by simp
  by_cases hclosed : Use.close ∈ uses
  · rw [h.send_closed hclosed]
    refine ⟨h.closed.trans hclose.symm, h.streamed.trans hstream.symm, fun hfirst => ?_⟩
    rw [Use.lastPrompt_of_close hclosed]
    exact h.prompt (mt hstream.2 hfirst)
  · rw [h.send_open hclosed]
    exact ⟨h.closed.trans hclose.symm, h.streamed.trans hstream.symm, fun _ => (Use.lastPrompt_send hclosed prompt).symm⟩

/-- A session whose answer is taken is `Used` with one use more. -/
theorem Used.use_stream (h : Used uses s) : Used (uses ++ [.stream]) s.stream.2 := by
  have hclose : Use.close ∈ uses ++ [.stream] ↔ Use.close ∈ uses := by simp
  have hstream : Use.stream ∈ uses ++ [.stream] := by simp
  by_cases hstreamed : Use.stream ∈ uses
  · rw [h.stream_again hstreamed]
    exact ⟨h.closed.trans hclose.symm, iff_of_true (h.streamed.2 hstreamed) hstream, fun hfirst => absurd hstream hfirst⟩
  · rw [h.stream_first hstreamed]
    exact ⟨h.closed.trans hclose.symm, iff_of_true rfl hstream, fun hfirst => absurd hstream hfirst⟩

/-- A session that is closed is `Used` with one use more. -/
theorem Used.use_close (h : Used uses s) : Used (uses ++ [.close]) { s with closed := true } := by
  have hstream : Use.stream ∈ uses ++ [.close] ↔ Use.stream ∈ uses := by simp
  refine ⟨iff_of_true rfl (by simp), h.streamed.trans hstream.symm, fun hfirst => ?_⟩
  rw [Use.lastPrompt_of_prompt_none rfl]
  exact h.prompt (mt hstream.2 hfirst)

/-- A session that is used in any way is `Used` with one use more. -/
theorem Used.use (h : Used uses s) (u : Use) (n : Nat) : Used (uses ++ [u]) (Backend.echo.use (s, n) u).1 :=
  match u with
  | .send prompt => h.use_send prompt
  | .stream => h.use_stream
  | .close => h.use_close

end

/-- Whatever is done with an echo, it is known by this what it is. -/
theorem used_useAll (id : String) (resumed : Bool) (n : Nat) (uses : List Use) :
    Used uses (Backend.echo.useAll (.opened id resumed, n) uses).1 := by
  induction uses using List.reverseRecOn with
  | nil => exact used_opened id resumed
  | append_singleton uses u ih =>
    rw [Backend.useAll, List.foldl_append]
    exact ih.use u _

end EchoSession

/-! ## Echoes -/

namespace Backend

open EchoSession (used_useAll)

theorem echo_send (s : EchoSession) (n : Nat) (prompt : String) :
    echo.send prompt s n = ((s.send prompt).1, (s.send prompt).2, n) := rfl

theorem echo_stream (s : EchoSession) (n : Nat) : echo.stream s n = (s.stream.1.map TurnStream.ofTurns, s.stream.2, n) := rfl

/-- Who gets the answer is the first to take it. -/
theorem Streams.first {id : String} {resumed : Bool} {n : Nat} {uses : List Use} {i : Nat}
    (h : echo.Streams (.opened id resumed, n) uses i) : Use.stream ∉ uses.take i := by
  intro hbefore
  obtain ⟨-, turns, hturns⟩ := h
  rw [echo_stream, (used_useAll id resumed n (uses.take i)).stream_again hbefore] at hturns
  cases hturns

/-- Only one use of a session gets the answer. -/
theorem Streams.unique {id : String} {resumed : Bool} {n : Nat} {uses : List Use} {i j : Nat}
    (hi : echo.Streams (.opened id resumed, n) uses i) (hj : echo.Streams (.opened id resumed, n) uses j) : i = j := by
  have hbefore : ∀ {i j}, uses[i]? = some .stream → i < j → Use.stream ∈ uses.take j := by
    intro i j hstream hless
    exact List.mem_of_getElem? ((List.getElem?_take_of_lt hless).trans hstream)
  rcases Nat.lt_trichotomy i j with hless | heq | hless
  · exact absurd (hbefore hi.1 hless) hj.first
  · exact heq
  · exact absurd (hbefore hj.1 hless) hi.first

/-- What an echo returns. When a run asks it something it comes straight to where the result of the call is what comes back of the prompt,
    whatever stands in this. And however it is used, it takes prompts until it is closed and none after that, by which nothing changes;
    its answer can be taken once, and this is the last prompt that it took. -/
theorem echo_returns :
    (∀ {κ δ : Type} (courier : Courier δ) (store : ContentStore κ) (agent : Agent) (title : String) (bindings : List Binding)
        (prior : Option String) (s : RunState Nat κ δ),
      let h : Host Nat EchoSession κ δ := ⟨courier, .echo, store⟩
      let prompt := renderPrompt title agent bindings
      ∃ heard v,
        (h.askSession agent title prompt prior).Leads s (do
          h.recordHeard agent heard title
          return heard.tally.finalResult) v ∧
        EchoSession.Echoes prompt heard.tally.finalResult) ∧
    ∀ (id : String) (resumed : Bool) (n : Nat) (uses : List Use),
      let opened := (EchoSession.opened id resumed, n)
      let x := echo.useAll opened uses
      (∀ i j, echo.Streams opened uses i → echo.Streams opened uses j → i = j) ∧
      (Use.stream ∈ uses → ∃ e, echo.stream x.1 x.2 = (.error e, x) ∧ e.kind = .streamConsumed) ∧
      (Use.stream ∉ uses → ∃ turns, (echo.stream x.1 x.2).1 = .ok (.ofTurns turns) ∧
        turns.filterMap (·.text) = ["<result>\n" ++ Use.lastPrompt uses ++ "\n</result>"]) ∧
      ∀ prompt,
        (Use.close ∈ uses → ∃ e, echo.send prompt x.1 x.2 = (.error e, x) ∧ e.kind = .adapterFailed) ∧
        (Use.close ∉ uses → (echo.send prompt x.1 x.2).1 = .ok ()) := by
  refine ⟨fun courier store agent title bindings prior s => ?_, fun id resumed n uses => ?_⟩
  · exact Host.leads_askEcho courier store agent title (renderPrompt title agent bindings) prior s
  intro opened x
  have hused : EchoSession.Used uses x.1 := used_useAll id resumed n uses
  refine ⟨fun i j hi hj => hi.unique hj, fun hagain => ?_, fun hfirst => ?_, fun prompt => ⟨fun hclosed => ?_, fun hopen => ?_⟩⟩
  · refine ⟨(Failure.Cause.streamConsumed (some x.1.id)).failure, ?_, rfl⟩
    rw [echo_stream, hused.stream_again hagain]
    rfl
  · refine ⟨x.1.reply (Use.lastPrompt uses), ?_, rfl⟩
    rw [echo_stream, hused.stream_first hfirst]
    rfl
  · refine ⟨(Failure.Cause.adapter "echo" "session is closed").failure, ?_, rfl⟩
    rw [echo_send, hused.send_closed hclosed]
    rfl
  · rw [echo_send, hused.send_open hopen]

/-- Where there is nothing but echoes, a memory and a log. -/
def echoing : Host Nat EchoSession MemoryStore Unit where
  courier := ⟨⟨fun _ => [0], fun _ _ => [0]⟩, ⟨"run", "hash", "user"⟩, .standard, none, .log, .ofMillis⟩
  backend := .echo
  store := MemoryStore.operations ⟨fun _ => [0], fun _ _ => [0]⟩

/-- A closing mark in the title cuts the prompt short, though an opening mark stands before it; and a session that is sent something when
    it has been closed answers with what it was sent before. -/
theorem echo_returns_cut :
    let agent := Agent.named "a"
    let prompt := renderPrompt "Say <result> or </result>" agent []
    let opened := (EchoSession.opened "echo-1" false, 1)
    let uses : List Use := [.send "one", .close, .send "two"]
    let x := echo.useAll opened uses
    let y := echo.useAll opened (uses ++ [.stream])
    (∃ heard v, (echoing.askSession agent "Say <result> or </result>" prompt none).Leads (.fresh 0 [] ()) (do
        echoing.recordHeard agent heard "Say <result> or </result>"
        return heard.tally.finalResult) v ∧
      heard.tally.finalResult = "# Task\nSay <result> or") ∧
    (Use.close ∈ uses ∧ ∃ e, echo.send "three" x.1 x.2 = (.error e, x) ∧ e.kind = .adapterFailed) ∧
    (Use.stream ∉ uses ∧ ∃ turns, (echo.stream x.1 x.2).1 = .ok (.ofTurns turns) ∧
      turns.filterMap (·.text) = ["<result>\none\n</result>"]) ∧
    (Use.stream ∈ uses ++ [.stream] ∧ ∃ e, echo.stream y.1 y.2 = (.error e, y) ∧ e.kind = .streamConsumed) ∧
    (Use.close ∉ [] ∧ (echo.send "one" opened.1 opened.2).1 = .ok ()) := by
  intro agent prompt opened uses x y
  have hclose : Use.close ∈ uses := by decide
  have hfirst : Use.stream ∉ uses := by decide
  have hagain : Use.stream ∈ uses ++ [.stream] := by decide
  have hopen : Use.close ∉ [] := List.not_mem_nil
  obtain ⟨hask, hhandle⟩ := echo_returns
  obtain ⟨heard, v, hleads, hechoes⟩ := hask echoing.courier echoing.store agent "Say <result> or </result>" [] none (.fresh 0 [] ())
  have hcut : EchoSession.Echoes prompt "# Task\nSay <result> or" := by
    obtain ⟨rest, hprompt⟩ : ∃ rest, prompt = "# Task\n" ++ "Say <result> or </result>" ++ rest :=
      renderPrompt_title "Say <result> or </result>" agent []
    have hfront : "# Task\n".toList ++ "Say <result> or </result>".toList = "# Task\nSay <result> or ".toList ++ resultClose := by decide
    have hfound : FirstAt resultClose prompt.toList "# Task\nSay <result> or ".toList rest.toList := by
      rw [hprompt, String.toList_append, String.toList_append, hfront]
      exact firstAt_resultClose (by decide) rest.toList
    have hbefore : trim "# Task\nSay <result> or ".toList = "# Task\nSay <result> or".toList := by decide
    have hcut := EchoSession.Echoes.cut hfound
    rwa [hbefore, String.ofList_toList] at hcut
  obtain ⟨-, -, hanswer, hsend⟩ := hhandle "echo-1" false 1 uses
  obtain ⟨-, hstream, -, -⟩ := hhandle "echo-1" false 1 (uses ++ [.stream])
  obtain ⟨-, -, -, hsent⟩ := hhandle "echo-1" false 1 []
  exact ⟨⟨heard, v, hleads, hechoes.unique hcut⟩, ⟨hclose, (hsend "three").1 hclose⟩, ⟨hfirst, hanswer hfirst⟩,
    ⟨hagain, hstream hagain⟩, hopen, (hsent "one").2 hopen⟩

end Backend

end Playbook
