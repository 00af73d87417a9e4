import RegisterMachine.Proofs.Machine.Sources
import RegisterMachine.Proofs.Session.Scripts

/-!
# Sessions as scripts in order

In a session the prompt for scripts and the scripts themselves take lines from one console. The
lines that a session takes fall into turns: a line that answers the prompt for scripts, and behind
it those that its script has taken. Scripts alone, run in order on one machine that has only the
lines of the second kind, leave the memory and the output that the session leaves.

A turn that goes on to another one is `Turn.Passes`; a session is made of such turns and of its end,
and `Session.Dialogue` says what holds of the whole.
-/

namespace RegisterMachine

/-! ## Turns -/

/-- A line that answers the prompt for scripts, and the lines that its script has taken. -/
structure Turn where
  line : String
  taken : List String := []

namespace Turn

def lines (turn : Turn) : List String :=
  turn.line :: turn.taken

def prompts (turn : Turn) : List String :=
  scriptPrompt :: List.replicate turn.taken.length inputPrompt

def request (turn : Turn) : List Char :=
  Text.trim turn.line.toList

def leaves (turn : Turn) : Bool :=
  asksToLeave turn.request

/-- The script that a turn asks for. A blank line asks for none, and so does one that asks to
leave. -/
def script? (turn : Turn) : Option String :=
  if turn.request.isEmpty || turn.leaves then none else some (String.ofList turn.request)

theorem count_prompts (turns : List Turn) :
    (turns.flatMap prompts).count scriptPrompt = turns.length := by
  induction turns with
  | nil => rfl
  | cons turn rest ih =>
      have hne : (inputPrompt == scriptPrompt) = false := by decide
      rw [List.flatMap_cons, List.count_append, ih, prompts, List.count_cons_self,
        List.count_replicate, hne, List.length_cons]
      simp only [Bool.false_eq_true, if_false]
      omega

end Turn

namespace Session

def pending (s : Session) : List String :=
  s.machine.console.pending

def prompts (s : Session) : List String :=
  s.machine.console.prompts

/-! ## Scripts in order -/

/-- Runs scripts one after the other, up to the first that breaks off. -/
def runScripts (settings : SessionSettings) : List String → Session → Except Break Unit × Session
  | [], s => (.ok (), s)
  | path :: paths, s =>
      match s.runScript settings path with
      | (.error reason, s) => (.error reason, s)
      | (.ok _, s) => runScripts settings paths s

theorem runScripts_singleton {settings : SessionSettings} {path : String} {s next : Session}
    {finished : Bool} (h : s.runScript settings path = (.ok finished, next)) :
    s.runScripts settings [path] = (.ok (), next) := by
  rw [runScripts, h]
  rfl

theorem runScripts_append {settings : SessionSettings} {front : List String} {s next : Session}
    (h : s.runScripts settings front = (.ok (), next)) (back : List String) :
    s.runScripts settings (front ++ back) = next.runScripts settings back := by
  induction front generalizing s with
  | nil =>
      cases h
      rfl
  | cons path paths ih =>
      rw [runScripts] at h
      rw [List.cons_append, runScripts]
      cases hr : s.runScript settings path with
      | mk outcome ran =>
          rw [hr] at h
          cases outcome with
          | error reason => cases h
          | ok finished => exact ih h

/-! ## Dialogues -/

/-- How a session comes to its end, with the prompts that got no answer: by the first line that asks
to leave, or because no line is left. In the latter case a script may have asked for one in vain
before the session does. -/
inductive Closes (turns : List Turn) (rest : List String) : List String → Prop where
  | left {front : List Turn} {last : Turn} (turns_eq : turns = front ++ [last])
      (leaves : last.leaves = true) (stay : ∀ turn ∈ front, turn.leaves = false) :
      Closes turns rest []
  | ranOut (stay : ∀ turn ∈ turns, turn.leaves = false) (rest_eq : rest = []) (n : Nat) :
      Closes turns rest (List.replicate n inputPrompt ++ [scriptPrompt])

/-- A session has been made of turns. Its lines are theirs, once each and in order, and each line
answers the prompt that stands where it stands. -/
structure Dialogue (settings : SessionSettings) (s : Session) (turns : List Turn)
    (final : Session) : Prop where
  lines : s.pending = turns.flatMap Turn.lines ++ final.pending
  prompts : ∃ unanswered, final.prompts = s.prompts ++ turns.flatMap Turn.prompts ++ unanswered ∧
    Closes turns final.pending unanswered
  quiet : ∀ turn ∈ turns, turn.script? = none → turn.taken = []
  /-- Scripts in order on one machine, which has the lines that scripts take and no others, take
  those of their own turns and leave what the session leaves. -/
  scripts : ∀ alone : Session, s.Alongside alone → alone.pending = turns.flatMap Turn.taken →
    ∀ front back, turns = front ++ back → ∃ ran,
      alone.runScripts settings (front.filterMap Turn.script?) = (.ok (), ran) ∧
      ran.pending = back.flatMap Turn.taken ∧ (back = [] → final.Alongside ran)

theorem Closes.cons {turns : List Turn} {rest unanswered : List String} {turn : Turn}
    (h : Closes turns rest unanswered) (hl : turn.leaves = false) :
    Closes (turn :: turns) rest unanswered := by
  cases h with
  | @left front last turns_eq leaves stay =>
      have hturns : turn :: turns = (turn :: front) ++ [last] := by
        rw [turns_eq, List.cons_append]
      exact .left hturns leaves (List.forall_mem_cons.2 ⟨hl, stay⟩)
  | ranOut stay rest_eq n => exact .ranOut (List.forall_mem_cons.2 ⟨hl, stay⟩) rest_eq n

theorem Closes.any_leaves {turns : List Turn} {rest unanswered : List String}
    (h : Closes turns rest unanswered) :
    turns.any Turn.leaves = true ∧ unanswered = [] ∨
    turns.any Turn.leaves = false ∧ rest = [] ∧
      ∃ n, unanswered = List.replicate n inputPrompt ++ [scriptPrompt] := by
  cases h with
  | left turns_eq leaves stay =>
      refine .inl ⟨?_, rfl⟩
      rw [turns_eq, List.any_append, List.any_cons, leaves, Bool.true_or, Bool.or_true]
  | ranOut stay rest_eq n =>
      refine .inr ⟨?_, rest_eq, n, rfl⟩
      rw [List.any_eq_false]
      intro turn ht
      rw [stay turn ht]
      exact Bool.false_ne_true

/-- Each line that answers the prompt for scripts has had one, and the end of the lines has one
too. -/
theorem Dialogue.count_prompts {settings : SessionSettings} {s final : Session} {turns : List Turn}
    (h : s.Dialogue settings turns final) :
    final.prompts.count scriptPrompt =
      s.prompts.count scriptPrompt + turns.length + if turns.any Turn.leaves then 0 else 1 := by
  obtain ⟨unanswered, hp, hc⟩ := h.prompts
  rw [hp, List.count_append, List.count_append, Turn.count_prompts]
  congr 1
  rcases hc.any_leaves with ⟨hany, rfl⟩ | ⟨hany, -, n, rfl⟩
  · rw [hany]
    rfl
  · have hne : (inputPrompt == scriptPrompt) = false := by decide
    rw [hany, List.count_append, List.count_replicate, hne, List.count_singleton_self]
    rfl

theorem Dialogue.eq_nil_of_pending {settings : SessionSettings} {s final : Session}
    {turns : List Turn} (h : s.Dialogue settings turns final) (hp : s.pending = []) :
    turns = [] := by
  have hl := h.lines
  rw [hp] at hl
  cases turns with
  | nil => rfl
  | cons turn rest => cases hl

end Session

/-! ## One turn -/

/-- A turn has brought a session to another state, and the session goes on. -/
structure Turn.Passes (settings : SessionSettings) (turn : Turn) (s next : Session) : Prop where
  stays : turn.leaves = false
  lines : s.pending = turn.lines ++ next.pending
  /-- A script can ask in vain only if it leaves no lines. -/
  prompts : ∃ n, next.prompts = s.prompts ++ turn.prompts ++ List.replicate n inputPrompt ∧
    (next.pending = [] ∨ n = 0)
  quiet : turn.script? = none → turn.taken = []
  script : ∀ (alone : Session) (rest : List String), s.Alongside alone →
    alone.pending = turn.taken ++ rest → (next.pending = [] → rest = []) → ∃ ran,
      alone.runScripts settings turn.script?.toList = (.ok (), ran) ∧ next.Alongside ran ∧
        ran.pending = rest

namespace Session

/-- The prompt for scripts takes the first line, and changes nothing else. -/
theorem askForScript_spec {s asked : Session} {line : Option String}
    (h : s.askForScript = (line, asked)) :
    (s.pending = line.toList ++ asked.pending ∧ (line = none → asked.pending = [])) ∧
      asked.prompts = s.prompts ++ [scriptPrompt] ∧ s.Alongside asked ∧
      ∀ {size limit : Int}, s.Steady size limit → asked.Steady size limit := by
  cases h
  refine ⟨?_, Console.prompts_readLine _ _, ⟨rfl, rfl, rfl, Console.outputs_readLine _ _⟩, ?_⟩
  · simp only [pending]
    cases s.machine.console.pending with
    | nil => exact ⟨rfl, fun _ => rfl⟩
    | cons first rest => exact ⟨rfl, nofun⟩
  · exact fun hs => ⟨hs.consistent.withConsole _, hs.limit_eq⟩

/-! ## The ways of a turn -/

section
variable {settings : SessionSettings} {s asked : Session} {line : String}
  (ha : s.askForScript = (some line, asked))
include ha

theorem passes_of_blank (hblank : Text.trim line.toList = []) :
    Turn.Passes settings ⟨line, []⟩ s asked := by
  obtain ⟨⟨hpending, -⟩, hprompts, halong, -⟩ := askForScript_spec ha
  have hrequest : Turn.request ⟨line, []⟩ = [] := hblank
  have hscript : Turn.script? ⟨line, []⟩ = none := by
    rw [Turn.script?, hrequest]
    rfl
  refine ⟨by rw [Turn.leaves, hrequest]; rfl, hpending, ⟨0, ?_, .inr rfl⟩, fun _ => rfl, ?_⟩
  · rw [hprompts]
    exact (List.append_nil _).symm
  · intro alone rest hs hp _
    refine ⟨alone, ?_, halong.symm.trans hs, hp⟩
    rw [hscript]
    rfl

/-- A script that does not break off passes its turn. -/
theorem passes_of_script (hb : settings.blankLimit = false) {request : List Char}
    (hrequest : Text.trim line.toList = request) (hne : request ≠ [])
    (hstays : asksToLeave request = false) {finished : Bool} {next : Session}
    (hr : asked.runScript settings (String.ofList request) = (.ok finished, next)) :
    ∃ taken, Turn.Passes settings ⟨line, taken⟩ s next := by
  obtain ⟨⟨hpending, -⟩, hprompts, halong, -⟩ := askForScript_spec ha
  obtain ⟨taken, n, hlines, hasked, hn⟩ :=
    (consulted_of_runScript hb (String.ofList request) asked).exists_taken
  rw [hr] at hlines hasked hn
  have hscript : Turn.script? ⟨line, taken⟩ = some (String.ofList request) := by
    have hempty : request.isEmpty = false := List.isEmpty_eq_false_iff.2 hne
    simp only [Turn.script?, Turn.leaves, Turn.request, hrequest, hempty, hstays]
    rfl
  refine ⟨taken, ?_, ?_, ⟨n, ?_, hn⟩, ?_, ?_⟩
  · simp only [Turn.leaves, Turn.request, hrequest, hstays]
  · rw [hpending]
    exact congrArg (line :: ·) hlines
  · rw [show next.prompts = _ from hasked, ← List.replicate_append_replicate]
    rw [show asked.machine.console.prompts = _ from hprompts]
    simp only [Turn.prompts, List.append_assoc, List.cons_append, List.nil_append]
  · intro hnone
    rw [hscript] at hnone
    cases hnone
  · intro alone rest hs hp hrest
    obtain ⟨hverdict, hran, hleft⟩ :=
      (halong.symm.trans hs).runScript hb (String.ofList request) hlines hp hrest (by rw [hr])
    rw [hr] at hverdict hran
    refine ⟨(alone.runScript settings (String.ofList request)).2, ?_, hran, hleft⟩
    rw [hscript, Option.toList_some]
    exact runScripts_singleton (Prod.ext hverdict rfl)

end

/-! ## The end -/

theorem dialogue_of_no_line {settings : SessionSettings} {s asked : Session}
    (ha : s.askForScript = (none, asked)) : s.Dialogue settings [] asked := by
  obtain ⟨⟨hpending, hnone⟩, hprompts, halong, -⟩ := askForScript_spec ha
  refine ⟨hpending, ⟨[scriptPrompt], ?_, ?_⟩, List.forall_mem_nil _, ?_⟩
  · rw [hprompts]
    simp
  · exact .ranOut (List.forall_mem_nil _) (hnone rfl) 0
  · intro alone hs hp front back hturns
    obtain ⟨rfl, rfl⟩ := List.append_eq_nil_iff.1 hturns.symm
    exact ⟨alone, rfl, hp, fun _ => halong.symm.trans hs⟩

theorem dialogue_of_leave {settings : SessionSettings} {s asked : Session} {line : String}
    (ha : s.askForScript = (some line, asked)) (hl : asksToLeave (Text.trim line.toList) = true) :
    s.Dialogue settings [⟨line, []⟩] asked := by
  obtain ⟨⟨hpending, -⟩, hprompts, halong, -⟩ := askForScript_spec ha
  have hleaves : Turn.leaves ⟨line, []⟩ = true := hl
  have hscript : Turn.script? ⟨line, []⟩ = none := by
    rw [Turn.script?, hleaves, Bool.or_true]
    rfl
  refine ⟨hpending, ⟨[], ?_, ?_⟩, ?_, ?_⟩
  · rw [hprompts]
    exact (List.append_nil _).symm
  · exact .left (List.nil_append _).symm hleaves (List.forall_mem_nil _)
  · intro turn ht _
    rw [List.mem_singleton.1 ht]
  · -- No script is run in any part of this, and no line is taken by one.
    intro alone hs hp front back hturns
    have hnone : ∀ turn ∈ front ++ back, turn.script? = none ∧ turn.taken = [] := by
      rw [← hturns]
      exact List.forall_mem_singleton.2 ⟨hscript, rfl⟩
    have hfront : front.filterMap Turn.script? = [] :=
      List.filterMap_eq_nil_iff.2 fun turn ht => (hnone turn (List.mem_append_left _ ht)).1
    have hback : back.flatMap Turn.taken = [] :=
      List.flatMap_eq_nil_iff.2 fun turn ht => (hnone turn (List.mem_append_right _ ht)).2
    refine ⟨alone, ?_, ?_, fun _ => halong.symm.trans hs⟩
    · rw [hfront]
      rfl
    · rw [hp, hback]
      rfl

/-- A turn in front of a dialogue. -/
theorem Dialogue.cons {settings : SessionSettings} {s next final : Session} {turn : Turn}
    {turns : List Turn} (hp : turn.Passes settings s next)
    (h : next.Dialogue settings turns final) : s.Dialogue settings (turn :: turns) final := by
  refine ⟨?_, ?_, List.forall_mem_cons.2 ⟨hp.quiet, h.quiet⟩, ?_⟩
  · rw [hp.lines, h.lines, List.flatMap_cons, List.append_assoc]
  · obtain ⟨unanswered, hprompts, hcloses⟩ := h.prompts
    obtain ⟨n, hpassed, hn⟩ := hp.prompts
    rcases hn with hempty | rfl
    · obtain rfl := h.eq_nil_of_pending hempty
      refine ⟨List.replicate n inputPrompt ++ unanswered, ?_, ?_⟩
      · rw [hprompts, hpassed]
        simp only [List.flatMap_cons, List.flatMap_nil, List.append_nil, List.append_assoc]
      · cases hcloses with
        | left turns_eq => simp at turns_eq
        | ranOut _ rest_eq k =>
            rw [← List.append_assoc, List.replicate_append_replicate]
            exact .ranOut (List.forall_mem_singleton.2 hp.stays) rest_eq (n + k)
    · refine ⟨unanswered, ?_, hcloses.cons hp.stays⟩
      rw [hprompts, hpassed]
      simp only [List.replicate_zero, List.append_nil, List.flatMap_cons, List.append_assoc]
  · intro alone hs hpending front back hturns
    rw [List.flatMap_cons] at hpending
    obtain ⟨ran, hran, halong, hrest⟩ := hp.script alone (turns.flatMap Turn.taken) hs hpending
      fun hempty => by rw [h.eq_nil_of_pending hempty]; rfl
    cases front with
    | nil =>
        obtain rfl : turn :: turns = back := hturns
        exact ⟨alone, rfl, hpending, nofun⟩
    | cons first front =>
        obtain ⟨rfl, htail⟩ := List.cons_eq_cons.1 hturns
        have hpaths : (turn :: front).filterMap Turn.script? =
            turn.script?.toList ++ front.filterMap Turn.script? := by
          rw [List.filterMap_cons]
          cases turn.script? <;> rfl
        rw [hpaths, runScripts_append hran]
        exact h.scripts ran halong hrest front back htail

/-! ## Sessions -/

/-- A session has broken off with the crash of a script, which has left it as it is. -/
def BrokenOff (settings : SessionSettings) (size limit : Int)
    (outcome : Except Break Unit × Session) : Prop :=
  ∃ reason path, ∃ before : Session, before.Steady size limit ∧
    CrashesWith settings path before.machine reason ∧
    before.runScript settings path = (.error (.crash reason), outcome.2) ∧
    outcome.1 = .error (.crash reason)

section
variable {settings : SessionSettings} {s asked : Session} {line : String}
  (ha : s.askForScript = (some line, asked)) (fuel : Nat)
include ha

theorem converse_of_blank (hblank : Text.trim line.toList = []) :
    s.converse settings (fuel + 1) = asked.converse settings fuel := by
  simp only [converse, ha, hblank, List.isEmpty_nil, if_true]

theorem converse_of_leave (hleave : asksToLeave (Text.trim line.toList) = true) :
    s.converse settings (fuel + 1) = (.ok (), asked) := by
  have hempty : (Text.trim line.toList).isEmpty = false := by
    rw [List.isEmpty_eq_false_iff]
    intro hblank
    rw [hblank] at hleave
    cases hleave
  simp only [converse, ha, hempty, hleave]
  rfl

section
variable {request : List Char} (hrequest : Text.trim line.toList = request) (hne : request ≠ [])
  (hstays : asksToLeave request = false) {next : Session}
include hrequest hne hstays

theorem converse_of_script {finished : Bool}
    (hr : asked.runScript settings (String.ofList request) = (.ok finished, next)) :
    s.converse settings (fuel + 1) = next.converse settings fuel := by
  have hempty : request.isEmpty = false := List.isEmpty_eq_false_iff.2 hne
  simp only [converse, ha, hrequest, hempty, hstays, hr]
  rfl

theorem converse_of_break {reason : Break}
    (hr : asked.runScript settings (String.ofList request) = (.error reason, next)) :
    s.converse settings (fuel + 1) = (.error reason, next) := by
  have hempty : request.isEmpty = false := List.isEmpty_eq_false_iff.2 hne
  simp only [converse, ha, hrequest, hempty, hstays, hr]
  rfl

end

end

section
variable {settings : SessionSettings} (hb : settings.blankLimit = false) {size limit : Int}
include hb

/-- All that the next turn of a conversation can be: its end, the crash of a script, or a turn that
passes. -/
theorem converse_succ_cases {s : Session} (h : s.Steady size limit) (fuel : Nat) :
    (∃ turns final, s.converse settings (fuel + 1) = (.ok (), final) ∧
      s.Dialogue settings turns final) ∨
    BrokenOff settings size limit (s.converse settings (fuel + 1)) ∨
    ∃ turn next, Turn.Passes settings turn s next ∧ next.Steady size limit ∧
      s.converse settings (fuel + 1) = next.converse settings fuel := by
  cases ha : s.askForScript with
  | mk line asked =>
      have hasked : asked.Steady size limit := (askForScript_spec ha).2.2.2 h
      cases line with
      | none =>
          refine .inl ⟨[], asked, ?_, dialogue_of_no_line ha⟩
          rw [converse, ha]
      | some line =>
          generalize hrequest : Text.trim line.toList = request
          by_cases hempty : request = []
          · have hblank := hrequest.trans hempty
            exact .inr (.inr ⟨_, asked, passes_of_blank ha hblank, hasked,
              converse_of_blank ha fuel hblank⟩)
          · cases hleave : asksToLeave request with
            | true =>
                rw [← hrequest] at hleave
                exact .inl ⟨[⟨line, []⟩], asked, converse_of_leave ha fuel hleave,
                  dialogue_of_leave ha hleave⟩
            | false =>
                have hkept := hasked.runScript hb (String.ofList request)
                have hbudget := hasked.ne_outOfBudget hb (String.ofList request)
                cases hr : asked.runScript settings (String.ofList request) with
                | mk outcome next =>
                    rw [hr] at hkept hbudget
                    cases outcome with
                    | error stop =>
                        cases stop with
                        | outOfBudget => exact (hbudget rfl).elim
                        | crash reason =>
                            have hbreak : s.converse settings (fuel + 1) = _ :=
                              converse_of_break ha fuel hrequest hempty hleave hr
                            have hcrash : CrashesWith settings (String.ofList request) _ reason :=
                              crashesWith_of_runScript hb (by rw [hr])
                            exact .inr (.inl ⟨reason, _, asked, hasked, hcrash,
                              by rw [hr, hbreak], by rw [hbreak]⟩)
                    | ok finished =>
                        obtain ⟨taken, hpasses⟩ :=
                          passes_of_script ha hb hrequest hempty hleave hr
                        exact .inr (.inr ⟨_, next, hpasses, hkept,
                          converse_of_script ha fuel hrequest hempty hleave hr⟩)

/-- A conversation with turns enough breaks off or is a dialogue. -/
theorem converse_cases {s : Session} (h : s.Steady size limit) {fuel : Nat}
    (hf : s.pending.length < fuel) :
    BrokenOff settings size limit (s.converse settings fuel) ∨
    ∃ turns final, s.converse settings fuel = (.ok (), final) ∧
      s.Dialogue settings turns final := by
  induction fuel generalizing s with
  | zero => omega
  | succ fuel ih =>
      rcases converse_succ_cases hb h fuel with hend | hbroken | ⟨turn, next, hp, hn, heq⟩
      · exact .inr hend
      · exact .inl hbroken
      · -- The turn has taken a line at least, and so there are turns enough for the others.
        have hlength : next.pending.length < fuel := by
          rw [hp.lines, Turn.lines, List.cons_append, List.length_cons, List.length_append] at hf
          omega
        rw [heq]
        refine (ih hn hlength).imp_right ?_
        rintro ⟨turns, final, hc, hd⟩
        exact ⟨turn :: turns, final, hc, hd.cons hp⟩

end

def opened (s : Session) : Session :=
  (s.notify "AQA Assembly Language Environment (Interactive Mode)").notify
    "----------------------------------------------------"

theorem spared_opened (s : Session) : s.machine.Spared s.opened.machine :=
  (s.spared_notify _).trans (spared_notify _ _)

theorem interact_eq (settings : SessionSettings) (s : Session) :
    s.interact settings =
      match s.opened.converse settings (s.opened.pending.length + 1) with
      | (.error reason, s) => (.error reason, s)
      | (.ok _, s) => (.ok (), s.notify "Exiting environment.") :=
  rfl

/-- Notices around a dialogue make no difference. -/
theorem Dialogue.spared {settings : SessionSettings} {s s' final final' : Session}
    {turns : List Turn} (h : s.Dialogue settings turns final) (hs : s'.machine.Spared s.machine)
    (hf : final.machine.Spared final'.machine) : s'.Dialogue settings turns final' where
  lines := by
    have hl := h.lines
    simp only [pending] at hl ⊢
    rw [hf.pending_eq, ← hs.pending_eq, hl]
  prompts := by
    obtain ⟨unanswered, hp, hc⟩ := h.prompts
    simp only [Session.prompts, pending] at hp hc ⊢
    refine ⟨unanswered, ?_, ?_⟩
    · rw [hf.prompts_eq, hp, hs.prompts_eq]
    · rw [hf.pending_eq]
      exact hc
  quiet := h.quiet
  scripts := by
    intro alone halong hp front back hturns
    obtain ⟨ran, hran, hpending, hfinal⟩ :=
      h.scripts alone ((Alongside.of_spared hs).symm.trans halong) hp front back hturns
    exact ⟨ran, hran, hpending, fun he => (Alongside.of_spared hf).symm.trans (hfinal he)⟩

/-- A session on a machine with a limit breaks off with the crash of a script, or its lines fall
into turns and it leaves what the scripts of these leave in order on one machine. It has then asked
for a script once for each of the turns, and once more if the lines have run out. Whether a script
comes to its end or not, or is not even loaded, it leaves the machine fit for others and has changed
it by the instructions that it has completed. -/
theorem interact_folds_scripts {settings : SessionSettings} (hb : settings.blankLimit = false)
    {s : Session} {size limit : Int} (h : s.Steady size limit) :
    (BrokenOff settings size limit (s.interact settings) ∨
      ∃ turns final, s.interact settings = (.ok (), final) ∧ s.Dialogue settings turns final ∧
        final.prompts.count scriptPrompt =
          s.prompts.count scriptPrompt + turns.length + if turns.any Turn.leaves then 0 else 1) ∧
    ∀ (path : String) (before : Session), before.Steady size limit →
      (before.runScript settings path).2.Steady size limit ∧
      Contributes settings path before.machine (before.runScript settings path).2.machine := by
  refine ⟨?_, fun path before hbefore => ⟨hbefore.runScript hb path, hbefore.contributes hb path⟩⟩
  rcases converse_cases hb (h.spared s.spared_opened) (Nat.lt_succ_self _) with
      hbroken | ⟨turns, final, hc, hd⟩
  · refine .inl ?_
    rw [interact_eq]
    generalize s.opened.converse settings (s.opened.pending.length + 1) = outcome at hbroken ⊢
    obtain ⟨reason, path, before, hbefore, hcrash, hr, he⟩ := hbroken
    obtain ⟨result, stopped⟩ := outcome
    cases he
    exact ⟨reason, path, before, hbefore, hcrash, hr, rfl⟩
  · have hdialogue : s.Dialogue settings turns (final.notify "Exiting environment.") :=
      hd.spared s.spared_opened (final.spared_notify _)
    refine .inr ⟨turns, final.notify "Exiting environment.", ?_, hdialogue, ?_⟩
    · rw [interact_eq, hc]
    · exact hdialogue.count_prompts

/-- A script that adds to a cell is run twice, and a third time only if the session is not left. -/
theorem interact_folds_scripts_sum :
    let text := "IN R0\nLDR R1, 3\nADD R0, R0, R1\nSTR R0, 3\nOUT R0"
    let settings : SessionSettings := { read := fun _ => .ok text.toUTF8.data.toList, budget := 0 }
    let console : Console :=
      { pending := ["sum.assembly", "4", "sum.assembly", "5", "Exit ", "sum.assembly"] }
    let s : Session :=
      { machine :=
          { memory := .zeroed 4 (by decide) (by decide), console, limit := some 9 } }
    settings.blankLimit = false ∧ s.Steady 4 9 ∧
      ∃ turns final, s.interact settings = (.ok (), final) ∧ s.Dialogue settings turns final ∧
        turns.length = 3 ∧ final.pending = ["sum.assembly"] ∧
        final.machine.console.outputs = ["4", "9"] ∧ final.machine.memory.read 3 = .ok 9 := by
  intro text settings console s
  have hm : Machine.create 4 console 4 (some 9) false = .ok s.machine := rfl
  have hs : s.Steady 4 9 := ⟨Machine.consistent_create hm, rfl⟩
  let program : Program :=
    { instructions := #[{ text := "IN R0", line := 1 }, { text := "LDR R1, 3", line := 2 },
                        { text := "ADD R0, R0, R1", line := 3 }, { text := "STR R0, 3", line := 4 },
                        { text := "OUT R0", line := 5 }]
      labels := {} }
  let served (s : Session) : Except Break Bool × Session :=
    runLoaded settings
      { s.askForScript.2 with
        machine := s.askForScript.2.machine.withProgram program "sum.assembly" }
  have hprogram : Program.ofText text = .ok program := by decide +kernel
  have hload (m : Machine) : m.loadFile settings.read "sum.assembly" =
      (.ok (), m.withProgram program "sum.assembly") := by
    rw [m.loadFile_of_text (by decide) rfl]
    simp only [Machine.loadText, hprogram]
    rfl
  have hturn {s : Session}
      (hserved : s.askForScript.1 = some "sum.assembly" ∧ (served s).1 = .ok true) (fuel : Nat) :
      s.converse settings (fuel + 1) = (served s).2.converse settings fuel := by
    have hask : s.askForScript = (some "sum.assembly", s.askForScript.2) :=
      Prod.ext hserved.1 rfl
    have hscript : s.askForScript.2.runScript settings "sum.assembly" = served s := by
      simp only [runScript, hload]
      rfl
    have hrequest : Text.trim "sum.assembly".toList = "sum.assembly".toList := by decide
    exact converse_of_script hask fuel hrequest (by decide) (by decide)
      (hscript.trans (Prod.ext hserved.2 rfl))
  let last := (served (served s.opened).2).2
  have hleave : last.askForScript = (some "Exit ", last.askForScript.2) :=
    Prod.ext (by decide +kernel) rfl
  have hconverse : s.opened.converse settings 7 = (.ok (), last.askForScript.2) := by
    rw [hturn (by decide +kernel), hturn (by decide +kernel),
      converse_of_leave hleave 4 (by decide)]
  have hinteract : s.interact settings =
      (.ok (), last.askForScript.2.notify "Exiting environment.") := by
    rw [interact_eq, show s.opened.pending.length + 1 = 7 from rfl, hconverse]
  obtain ⟨⟨_, -, -, -, -, -, he⟩ | ⟨turns, final, hi, hd, hcount⟩, -⟩ :=
    @interact_folds_scripts settings rfl s 4 9 hs
  · rw [hinteract] at he
    cases he
  · have hfinal : final = last.askForScript.2.notify "Exiting environment." := by
      rw [hinteract] at hi
      exact (Prod.ext_iff.1 hi).2.symm
    have hleaves : final.pending = ["sum.assembly"] ∧ final.prompts.count scriptPrompt = 3 ∧
        final.machine.console.outputs = ["4", "9"] ∧ final.machine.memory.read 3 = .ok 9 := by
      rw [hfinal]
      decide +kernel
    have hleft : turns.any Turn.leaves = true := by
      obtain ⟨unanswered, -, hcloses⟩ := hd.prompts
      rcases hcloses.any_leaves with ⟨hany, -⟩ | ⟨-, hnone, -⟩
      · exact hany
      · rw [hleaves.1] at hnone
        cases hnone
    have hstart : s.prompts.count scriptPrompt = 0 := rfl
    have hlength : turns.length = 3 := by
      rw [hleaves.2.1, hstart, hleft] at hcount
      simpa using hcount.symm
    exact ⟨rfl, hs, turns, final, hi, hd, hlength, hleaves.1, hleaves.2.2⟩

end Session

end RegisterMachine
