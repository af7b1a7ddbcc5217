import Nftables.Proofs.CommandLine.Run
import Nftables.Proofs.Options.Reading
import Nftables.Proofs.Plan.Operation

/-!
# Errors that escape

A run tells what has gone wrong by its exit code and a message.  Some errors are handled nowhere and
end the run without either.  Which ones is said by `Escapes`, stage by stage and without the run
itself; a run keeps the promise exactly if none of them occurs.
-/

namespace Nftables.CommandLine

open Nftables.Frame (Bytes)
open Json (Writable)

variable {env : Environment} {args : List String} {a : Arguments} {o : Options} {d : Value}
variable {w : Worker} {t : Binary64} {r : Run} {code : Nat} {reply : Bytes}

/-! ## What a run promises -/

/-- The errors that a run has written end with a message. -/
def Run.Complains (r : Run) : Prop :=
  ∃ lines : List Char, ∃ message : String,
    r.errors = lines ++ ("Error: " ++ message ++ "\n").toList

/-- A run ends with one of the three exit codes, and tells why unless the code is 0. -/
def Run.Reports (r : Run) : Prop :=
  ∃ code ≤ 2, r.ending = .exit code ∧ (code ≠ 0 → r.Complains)

/-- A configuration whose faults nobody handles: its name holds a null character, its bytes are no
text, its reader has no room left on the stack, or reading it breaks off. -/
inductive UnhandledOptions (env : Environment) (path : String) : Prop
  | nullCharacter (h : isName (configFile path) = false)
  | notText {reason : String} (hname : isName (configFile path) = true)
      (h : env.file (configFile path) = .error (.notText reason))
  | noRoom {text : List Char} (hname : isName (configFile path) = true)
      (htext : env.file (configFile path) = .ok text) (h : env.readsOptions text = false)
  | breaksOff {text : List Char} {e : Options.Error} (hname : isName (configFile path) = true)
      (htext : env.file (configFile path) = .ok text) (hroom : env.readsOptions text = true)
      (he : ¬ e.IsTold) (h : Options.BreaksOff text e)

/-- An error occurs that nobody handles: in the configuration, in a document that overflows the room
there is for it, in the plan of a dry run or where the plan is written, in the words of the worker's
command, in a word that is no name for the system or that it cannot encode, in the request, or in a
reply that overflows the room there is for it. -/
inductive Escapes (env : Environment) (a : Arguments) : Prop
  | options {path : String} (hc : given a.config = some path) (h : UnhandledOptions env path)
  | document {o : Options} {path : String} {text : List Char} (ho : settings env a = .ok o)
      (hlist : a.listRuleset = false) (hpath : given a.document = some path)
      (htext : textOf env path = .ok text) (h : Json.Overflows env.documentRoom .element text)
  | plan {o : Options} {es : List (String × Value)} {vs : List Value} {v : Value}
      (ho : settings env a = .ok o) (hd : choose env a o = .ok (.object es))
      (hdry : a.dryRun = true) (hvs : Value.lookup "nftables" es = some (.list vs)) (hv : v ∈ vs)
      (h : ¬ Plan.IsOperation env.documentRoom v)
  | output {o : Options} {d : Value} {plan : List Char} (ho : settings env a = .ok o)
      (hd : choose env a o = .ok d) (hdry : a.dryRun = true)
      (hplan : Plan.render env.documentRoom d = .ok plan) (h : env.prints plan = false)
  | command {o : Options} {d : Value} {text : String} {f : Text.Words.Fault}
      (ho : settings env a = .ok o) (hd : choose env a o = .ok d) (hdry : a.dryRun = false)
      (htext : given a.worker = some text) (h : Options.commandWords text = .error f)
  | nullCharacter {o : Options} {d : Value} {command : List String} {word : String}
      (ho : settings env a = .ok o) (hd : choose env a o = .ok d) (hdry : a.dryRun = false)
      (hc : commandOf a o = .ok command) (hword : word ∈ command) (h : isName word = false)
  | unencodable {o : Options} {d : Value} {command : List String}
      (ho : settings env a = .ok o) (hd : choose env a o = .ok d) (hdry : a.dryRun = false)
      (hc : commandOf a o = .ok command) (hne : command ≠ [])
      (h : env.worker command = .error .unencodable)
  | request {o : Options} {d : Value} {command : List String} {w : Worker}
      (ho : settings env a = .ok o) (hd : choose env a o = .ok d) (hdry : a.dryRun = false)
      (hc : commandOf a o = .ok command) (hne : command ≠ []) (hw : env.worker command = .ok w)
      (h : Unaskable d (a.timeout.getD o.timeout))
  | reply {o : Options} {d : Value} {reply : Bytes} (ho : settings env a = .ok o)
      (hd : choose env a o = .ok d) (hdry : a.dryRun = false) (hr : Answered env a o d reply)
      (h : Json.Overflows env.replyRoom .element (Reply.bytes reply).chars)

/-! ## Reports -/

theorem Run.Reports.after (h : r.Reports) (lines : List Char) : (r.after lines).Reports := by
  obtain ⟨code, hcode, hending, hcomplains⟩ := h
  refine ⟨code, hcode, hending, fun hne ↦ ?_⟩
  obtain ⟨before, message, herrors⟩ := hcomplains hne
  exact ⟨lines ++ before, message, by rw [Run.after, herrors, List.append_assoc]⟩

theorem configProblem_ok {path message : String} {e : Options.Error}
    (h : configProblem path e = .ok message) : e.IsTold := by
  unfold configProblem at h
  split at h
  case h_1 =>
    split at h
    case h_1 hmessage => exact .refused (Options.Refusal.message?_eq_some_iff.mp hmessage).1
    case h_2 => cases h
  case h_2 => exact .malformed
  case h_3 => cases h

theorem configProblem_of_not_isTold {e : Options.Error} (path : String) (h : ¬ e.IsTold) :
    ∃ c, configProblem path e = .error c := by
  cases hp : configProblem path e with
  | ok message => exact absurd (configProblem_ok hp) h
  | error c => exact ⟨c, rfl⟩

theorem UnhandledOptions.crashes {path : String} (h : UnhandledOptions env path) :
    ∃ c, optionsOf env path = .error (.crash c) := by
  cases h with
  | nullCharacter hname =>
    exact ⟨_, by simp only [optionsOf, hname, Bool.false_eq_true, if_false]; rfl⟩
  | notText hname hfile => exact ⟨_, by simp only [optionsOf, hname, hfile, if_true]; rfl⟩
  | noRoom hname htext hroom =>
    exact ⟨_, by simp only [optionsOf, hname, htext, hroom, Bool.false_eq_true, if_true, if_false]; rfl⟩
  | breaksOff hname htext hroom he h =>
    obtain ⟨c, hc⟩ := configProblem_of_not_isTold (configFile path) he
    have ho := (Options.ofText_error_iff he).mpr h
    exact ⟨c, by simp only [optionsOf, hname, htext, hroom, ho, hc, if_true]⟩

theorem UnhandledOptions.settings_crashes {path : String} (h : UnhandledOptions env path)
    (hc : given a.config = some path) : ∃ c, settings env a = .error (.crash c) := by
  obtain ⟨c, hcrash⟩ := h.crashes
  refine ⟨c, ?_⟩
  rw [settings, hc]
  exact hcrash

/-! ## Documents -/

theorem documentOf_of_overflows {room : Nat} {text : List Char}
    (h : Json.Overflows room .element text) :
    documentOf room text = .error (.crash (.stack .exhausted)) := by
  obtain ⟨f, hparse, hf⟩ := Json.parse_tooDeep_iff.mpr h
  simp only [documentOf, hparse, hf, if_true]

theorem choose_of_overflows {path : String} {text : List Char} (hlist : a.listRuleset = false)
    (hpath : given a.document = some path) (htext : textOf env path = .ok text)
    (h : Json.Overflows env.documentRoom .element text) :
    choose env a o = .error (.crash (.stack .exhausted)) := by
  rw [choose, hlist, if_neg Bool.false_ne_true, hpath]
  simp only [htext, Except.mapError]
  exact documentOf_of_overflows h

/-! ## Workers -/

theorem Unaskable.crashes (hd : Writable env.documentRoom d) (h : Unaskable d t) :
    ∃ c, (converse env w d t o).1.ending = .crashed c := by
  have hasked := asked w d t
  simp only [converse, payload_value hd, conclude]
  generalize (ask w (payloadOf d) t).reply = x at hasked ⊢
  cases hasked with
  | @unaskable e _ he =>
    cases e with
    | transport f => exact absurd rfl (he f)
    | _ => exact ⟨_, rfl⟩
  | unanswered hask | answered hask => exact absurd h hask

/-- A reply that overflows the room for it crashes the run, if the document can be sent at all. -/
theorem Worker.Answers.crashes (hd : Writable env.documentRoom d) (hr : w.Answers d t reply)
    (h : Json.Overflows env.replyRoom .element (Reply.bytes reply).chars) :
    ∃ c, (converse env w d t o).1.ending = .crashed c := by
  have hasked := asked w d t
  simp only [converse, payload_value hd, conclude]
  generalize (ask w (payloadOf d) t).reply = x at hasked ⊢
  cases hasked with
  | @unaskable e _ he =>
    cases e with
    | transport f => exact absurd rfl (he f)
    | _ => exact ⟨_, rfl⟩
  | unanswered _ hnone => exact absurd hr (hnone reply)
  | answered _ hr' =>
    cases hr.unique hr'
    simp only [Outcome.classify_of_overflows o.markers h]
    exact ⟨_, rfl⟩

/-- A word that is no name crashes the run. -/
theorem submit_of_not_isName {command : List String} {word : String} (hword : word ∈ command)
    (h : isName word = false) : (submit env command d t o).1.ending = .crashed .nullCharacter := by
  rw [submit, if_neg]
  · rfl
  · rw [List.all_eq_true]
    intro hall
    cases h.symm.trans (hall word hword)

/-- Whatever crashes a conversation crashes the run, unless a word that is no name has done so. -/
theorem submit_crashes {command : List String} (hw : env.worker command = .ok w)
    (h : ∃ c, (converse env w d t o).1.ending = .crashed c) :
    ∃ c, (submit env command d t o).1.ending = .crashed c := by
  rw [submit]
  split
  case isTrue =>
    rw [hw]
    exact h
  case isFalse => exact ⟨_, rfl⟩

/-! ## Runs -/

theorem workerOf_of_commandOf {command : List String} (hc : commandOf a o = .ok command)
    (hne : command ≠ []) : workerOf a o = .ok command := by
  unfold workerOf
  rw [hc]
  cases command with
  | nil => exact absurd rfl hne
  | cons => rfl

theorem run_of_settings_error (ha : Arguments.read args = .ok a) (h : settings env a = .error r) :
    run env args = r := by
  simp only [run, ha, perform, h, bind, Except.bind]

theorem run_of_choose_error (ha : Arguments.read args = .ok a) (ho : settings env a = .ok o)
    (h : choose env a o = .error r) : run env args = r := by
  simp only [run, ha, perform, ho, h, bind, Except.bind]

theorem run_of_dryRun (ha : Arguments.read args = .ok a) (hdry : a.dryRun = true)
    (ho : settings env a = .ok o) (hd : choose env a o = .ok d) : run env args = dryRun env d := by
  simp only [run, ha, perform, ho, hd, hdry, bind, Except.bind, if_true]

/-- A document has a plan if each of its commands is an operation. -/
theorem exists_plan_iff {room : Nat} {es : List (String × Value)} {vs : List Value}
    (hvs : Value.lookup "nftables" es = some (.list vs)) :
    (∃ plan, Plan.render room (.object es) = .ok plan) ↔ ∀ v ∈ vs, Plan.IsOperation room v := by
  refine Plan.exists_render_iff ?_
  rw [Plan.commands, hvs]
  rfl

theorem dryRun_of_not_prints {plan : List Char} (hplan : Plan.render env.documentRoom d = .ok plan)
    (hprints : env.prints plan = false) : dryRun env d = .crash .unencodable := by
  simp only [dryRun, hplan, hprints, Bool.false_eq_true, if_false]

/-- An error that nobody handles ends the run without an exit code. -/
theorem Escapes.crashed (ha : Arguments.read args = .ok a) (h : Escapes env a) :
    ∃ c, (run env args).ending = .crashed c := by
  cases h with
  | options hc h =>
    obtain ⟨c, hcrash⟩ := h.settings_crashes hc
    exact ⟨c, by rw [run_of_settings_error ha hcrash]; rfl⟩
  | @document o path text ho hlist hpath htext h =>
    have hcrash := choose_of_overflows (o := o) hlist hpath htext h
    exact ⟨.stack .exhausted, by rw [run_of_choose_error ha ho hcrash]; rfl⟩
  | plan ho hd hdry hvs hv h =>
    rw [run_of_dryRun ha hdry ho hd]
    cases hplan : Plan.render env.documentRoom _ with
    | ok plan => exact absurd ((exists_plan_iff hvs).mp ⟨plan, hplan⟩ _ hv) h
    | error e => exact ⟨.plan e, by rw [dryRun, hplan]; rfl⟩
  | output ho hd hdry hplan h =>
    rw [run_of_dryRun ha hdry ho hd, dryRun_of_not_prints hplan h]
    exact ⟨.unencodable, rfl⟩
  | @command o d text f ho hd hdry htext h =>
    have hc : commandOf a o = .error f := by
      rw [commandOf, htext]
      exact h
    rw [run_eq ha hdry ho hd, workerOf, hc]
    exact ⟨.command f, rfl⟩
  | nullCharacter ho hd hdry hc hword h =>
    rw [run_eq ha hdry ho hd, workerOf_of_commandOf hc (List.ne_nil_of_mem hword)]
    exact ⟨.nullCharacter, submit_of_not_isName hword h⟩
  | unencodable ho hd hdry hc hne h =>
    rw [run_eq ha hdry ho hd, workerOf_of_commandOf hc hne]
    simp only [submit, h, Run.after]
    split <;> exact ⟨_, rfl⟩
  | request ho hd hdry hc hne hw h =>
    rw [run_eq ha hdry ho hd, workerOf_of_commandOf hc hne]
    exact submit_crashes hw (h.crashes (choose_ok hd).1)
  | reply ho hd hdry hr h =>
    obtain ⟨hc, hne, hw, hr⟩ := hr
    rw [run_eq ha hdry ho hd, workerOf_of_commandOf hc hne]
    exact submit_crashes hw (hr.crashes (choose_ok hd).1 h)

end Nftables.CommandLine
