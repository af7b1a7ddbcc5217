import Mathlib.Control.Monad.Basic
import Nftables.Proofs.CommandLine.Run
import Nftables.Proofs.Value.Equality

/-!
# Exit codes

What the exit code and the output of a run say about its worker: 2 stands for no answer, 1 for an
answer that reports a failure, and 0 for an answer that reports none.
-/

namespace Nftables.CommandLine

variable {env : Environment} {args : List String} {a : Arguments} {o : Options} {d : Value}

/-- The exit code that reports the outcome of a reply tells failures from all else, and data alone is
written to the output. -/
theorem report_eq {room : Nat} {r : Reply} {outcome : Outcome} {log : List Log.Record} :
    Outcome.classify room r o.markers = .ok (outcome, log) →
      (report room outcome).ending = .exit (if outcome.ok then 0 else 1) ∧
        (report room outcome).output = match outcome with
          | .data v => Json.indented 0 v ++ ['\n']
          | _ => [] := by
  intro h
  refine ⟨report_ending h, ?_⟩
  cases outcome with
  | success => rfl
  | data v => rw [report_data h]
  | failure reason malformed =>
    rw [report]
    split <;> rfl

/-- **Exit codes.**  Take any run that is no dry run, whose options and document can be read, and
that ends with an exit code:

* the code is 2 exactly if no worker is configured, or it cannot be started, or it does not answer
  in time, and then the output is empty;
* if it answers, its reply has an outcome; the code is 1 exactly if that is a failure and 0 exactly if
  it is none, and the output is the JSON text of the document of a reply with data, from which a
  plain document is read back, and empty otherwise;
* so the code is 0 only if a worker has answered with a reply that is no failure. -/
theorem exit_code_of_run (ha : Arguments.read args = .ok a) (hdry : a.dryRun = false)
    (ho : settings env a = .ok o) (hd : choose env a o = .ok d)
    (hexit : ∃ code, (run env args).ending = .exit code) :
    ((run env args).ending = .exit 2 ↔ Unanswered env a o d) ∧
    (Unanswered env a o d → (run env args).output = []) ∧
    (∀ reply, Answered env a o d reply → ∃ outcome log,
      Outcome.classify env.replyRoom (.bytes reply) o.markers = .ok (outcome, log) ∧
        ((run env args).ending = .exit 1 ↔ outcome.status = "failure") ∧
        ((run env args).ending = .exit 0 ↔
          outcome.status = "success" ∨ outcome.status = "success_with_data") ∧
        ((run env args).output = match outcome with
          | .data v => Json.indented 0 v ++ ['\n']
          | _ => []) ∧
        ∀ v, outcome = .data v → v.Plain →
          Json.parse env.replyRoom (run env args).output = .ok v) ∧
    ((run env args).ending = .exit 0 → ∃ reply outcome log, Answered env a o d reply ∧
      Outcome.classify env.replyRoom (.bytes reply) o.markers = .ok (outcome, log) ∧
      outcome.status ≠ "failure") := by
  obtain ⟨code, hcode⟩ := hexit
  rcases run_returns ha hdry ho hd hcode with
    ⟨hun, rfl, hout⟩ | ⟨reply, outcome, log, hanswer, hclassify, hending, houtput⟩
  · refine ⟨⟨fun _ ↦ hun, fun _ ↦ hcode⟩, fun _ ↦ hout, fun reply hanswer ↦ ?_, fun h ↦ ?_⟩
    · exact absurd hun hanswer.not_unanswered
    · cases hcode.symm.trans h
  · obtain ⟨hreport, hwritten⟩ := report_eq hclassify
    rw [hcode, houtput, hwritten, hending, hreport]
    refine ⟨⟨fun h ↦ ?_, fun h ↦ absurd h hanswer.not_unanswered⟩,
      fun h ↦ absurd h hanswer.not_unanswered, fun reply' hanswer' ↦ ?_, fun h ↦ ?_⟩
    · split at h <;> cases h
    · cases hanswer.unique hanswer'
      refine ⟨outcome, log, hclassify, ?_, ?_, rfl, ?_⟩
      · cases outcome <;> simp [Outcome.ok, Outcome.status]
      · cases outcome <;> simp [Outcome.ok, Outcome.status]
      · rintro v rfl hv
        exact Json.parse_indented hv (Json.writable_of_parse (Outcome.parse_of_classify hclassify))
    · refine ⟨reply, outcome, log, hanswer, hclassify, ?_⟩
      revert h
      cases outcome <;> simp [Outcome.ok, Outcome.status]

/-- What the busy worker replies. -/
def busyReply : Frame.Bytes :=
  Text.Utf8.encode "\x7b\"error\": \"busy\"\x7d".toList

/-- A worker that reports an error whatever it is sent, and writes on after that. -/
def busy : Worker :=
  { reply := fun _ ↦ Frame.frame busyReply ++ [0, 0], closes := false }

theorem busy_outcome : Outcome.classify stackRoom (.bytes busyReply) ({} : Options).markers =
    .ok (.failure (.str "busy") false, []) :=
  Outcome.classify_of_parse (d := .object [("error", .str "busy")]) _ (by decide +kernel)
    (by decide +kernel)

/-- Every file holds a document without commands, and every command starts the busy worker. -/
def busyEnvironment : Environment :=
  { file := fun _ ↦ .ok "\x7b\"nftables\": []\x7d".toList, input := .ok [], worker := fun _ ↦ .ok busy }

def busyArguments : Arguments :=
  { document := some "rules.json", worker := some "nft -j" }

/-- The error of the busy worker is reported by an exit code of 1, with nothing on the output. -/
theorem exit_code_of_run_busy :
    Arguments.read ["rules.json", "-w", "nft -j"] = .ok busyArguments ∧
      Answered busyEnvironment busyArguments {} (.object [("nftables", .list [])]) busyReply ∧
      (run busyEnvironment ["rules.json", "-w", "nft -j"]).ending = .exit 1 ∧
      (run busyEnvironment ["rules.json", "-w", "nft -j"]).output = [] := by
  have ha : Arguments.read ["rules.json", "-w", "nft -j"] = .ok busyArguments := by decide +kernel
  have hd : choose busyEnvironment busyArguments {} = .ok (.object [("nftables", .list [])]) :=
    choose_of_text rfl rfl rfl (documentOf_of_parse (by decide +kernel) rfl)
  have hcommand : commandOf busyArguments {} = .ok ["nft", "-j"] := by decide +kernel
  have hanswer : Answered busyEnvironment busyArguments {} (.object [("nftables", .list [])])
      busyReply :=
    .intro hcommand (by simp) rfl ⟨by decide +kernel, rfl, by decide +kernel, [0, 0], rfl⟩
  have hexit : ∃ code, (run busyEnvironment ["rules.json", "-w", "nft -j"]).ending = .exit code := by
    have hreturns :
        ((run busyEnvironment ["rules.json", "-w", "nft -j"]).ending matches .exit _) = true := by
      decide +kernel
    split at hreturns
    case h_1 code hcode => exact ⟨code, hcode⟩
    case h_2 => cases hreturns
  obtain ⟨-, -, hcodes, -⟩ := exit_code_of_run ha rfl rfl hd hexit
  obtain ⟨outcome, log, hclassify, hfailure, -, hout, -⟩ := hcodes _ hanswer
  cases busy_outcome.symm.trans hclassify
  exact ⟨ha, hanswer, hfailure.mpr rfl, hout⟩

end Nftables.CommandLine
