import Nftables.CommandLine
import Nftables.Proofs.Channel.Run
import Nftables.Proofs.Outcome.Text

/-!
# Runs of the command

How far a run of the command gets with a document, said without the command: a worker answers it
(`Answered`), or none does, for one of three reasons (`Unanswered`).  A run that ends with an exit
code ends with 2 if there is no answer, and reports what the answer means otherwise
(`run_returns`).  The document of a run can be written, and so can what an answer means.
-/

namespace Nftables.CommandLine

open Nftables.Frame (Bytes)
open Json (Writable)

/-! ## Answers -/

/-- The bytes that a document is sent as: those of its compact text. -/
def payloadOf (d : Value) : Bytes :=
  Text.Utf8.encode (Json.compact d)

/-- A worker answers a document in time: there is time left, the document is taken, and what the
worker writes begins with the whole frame of its reply. -/
def Worker.Answers (w : Worker) (document : Value) (timeout : Binary64) (reply : Bytes) : Prop :=
  timeout.isNonPositive = false ∧ w.refuses = false ∧ reply.length ≤ Frame.maxLength ∧
    ∃ rest, w.reply (Frame.frame (payloadOf document)) = Frame.frame reply ++ rest

/-- The worker of a run is started, and answers. -/
inductive Answered (env : Environment) (a : Arguments) (o : Options) (d : Value) (reply : Bytes) :
    Prop where
  | intro {command : List String} {w : Worker} (hc : commandOf a o = .ok command)
      (hne : command ≠ []) (hw : env.worker command = .ok w)
      (hr : w.Answers d (a.timeout.getD o.timeout) reply)

/-- No worker is configured, or it cannot be started, or it does not answer in time. -/
inductive Unanswered (env : Environment) (a : Arguments) (o : Options) (d : Value) : Prop where
  | noCommand (hc : commandOf a o = .ok [])
  | notStarted {command : List String} {e : SystemError} (hc : commandOf a o = .ok command)
      (hne : command ≠ []) (hw : env.worker command = .error (.system e))
  | noReply {command : List String} {w : Worker} (hc : commandOf a o = .ok command)
      (hne : command ≠ []) (hw : env.worker command = .ok w)
      (hr : ∀ reply, ¬ w.Answers d (a.timeout.getD o.timeout) reply)

variable {env : Environment} {args : List String} {a : Arguments} {o : Options} {d : Value}
variable {w : Worker} {t : Binary64} {reply reply' : Bytes} {code : Nat}

theorem Worker.Answers.unique (h : w.Answers d t reply) (h' : w.Answers d t reply') :
    reply = reply' := by
  obtain ⟨-, -, hlen, rest, heq⟩ := h
  obtain ⟨-, -, hlen', rest', heq'⟩ := h'
  have hd := Frame.decode?_frame_append hlen rest
  rw [← heq, heq', Frame.decode?_frame_append hlen' rest'] at hd
  cases hd
  rfl

theorem Answered.unique (h : Answered env a o d reply) (h' : Answered env a o d reply') :
    reply = reply' := by
  obtain ⟨hc, -, hw, hr⟩ := h
  obtain ⟨hc', -, hw', hr'⟩ := h'
  cases hc.symm.trans hc'
  cases hw.symm.trans hw'
  exact hr.unique hr'

theorem Answered.not_unanswered (h : Answered env a o d reply) : ¬ Unanswered env a o d := by
  obtain ⟨hc, hne, hw, hr⟩ := h
  rintro (hc' | ⟨hc', -, hw'⟩ | ⟨hc', -, hw', hr'⟩)
  · exact hne (Except.ok.inj (hc.symm.trans hc'))
  · cases hc.symm.trans hc'
    cases hw.symm.trans hw'
  · cases hc.symm.trans hc'
    cases hw.symm.trans hw'
    exact hr' _ hr

/-! ## Documents -/

theorem payload_value {depth : Nat} (h : Writable depth d) :
    (Document.value d).payload depth = .ok (payloadOf d) := by
  rw [Document.payload, Json.write_ok_iff.mpr ⟨h, rfl⟩]
  rfl

/-- The document of a run is what the text at its path says. -/
theorem choose_of_text {path : String} {text : List Char} (hlist : a.listRuleset = false)
    (hpath : given a.document = some path) (htext : textOf env path = .ok text)
    (hd : documentOf env.documentRoom text = .ok d) : choose env a o = .ok d := by
  rw [choose, hlist, if_neg Bool.false_ne_true, hpath]
  simp only [htext, Except.mapError]
  exact hd

theorem documentOf_of_parse {room : Nat} {text : List Char} {vs : List Value}
    (h : Json.parse room text = .ok d) (hvs : d.get? "nftables" = some (.list vs)) :
    documentOf room text = .ok d := by
  simp only [documentOf, h, hvs]

/-- A document that is read is what its text says, and has a list of commands. -/
theorem documentOf_ok {room : Nat} {text : List Char} (h : documentOf room text = .ok d) :
    Json.parse room text = .ok d ∧
      ∃ es vs, d = .object es ∧ Value.lookup "nftables" es = some (.list vs) := by
  unfold documentOf at h
  split at h
  case h_1 =>
    split at h <;> cases h
  case h_2 d' hparse =>
    split at h
    case h_1 vs hvs =>
      cases h
      refine ⟨hparse, ?_⟩
      cases d with
      | object es => exact ⟨es, vs, rfl, hvs⟩
      | _ => cases hvs
    case h_2 => cases h

theorem listing_ok (h : listing a o = .ok d) :
    ∃ family query, Query.ruleset family = .ok query ∧ d = document [query] := by
  simp only [listing] at h
  split at h
  case h_1 query hquery =>
    cases h
    exact ⟨_, query, hquery, rfl⟩
  case h_2 => cases h

/-- A listing is nested no deeper than five times. -/
theorem writable_listing {family : Value} {query : Operation}
    (h : Query.ruleset family = .ok query) : Writable 5 (document [query]) := by
  simp only [Query.ruleset, Query.scope, bind_ok_iff, Except.ok.injEq] at h
  obtain ⟨as, has, rfl⟩ := h
  split at has
  case isTrue =>
    cases has
    simp [document, Term.single, Operation.toValue, Operation.attributeValue, Query.operation]
  case isFalse =>
    obtain ⟨w, -, has⟩ := bind_ok_iff.mp has
    cases has
    simp [document, Term.single, Operation.toValue, Operation.attributeValue, Query.operation]

/-- The document of a run has a list of commands, and there is room to write it. -/
theorem choose_ok (h : choose env a o = .ok d) : Writable env.documentRoom d ∧
    ∃ es vs, d = .object es ∧ Value.lookup "nftables" es = some (.list vs) := by
  unfold choose at h
  split at h
  case isTrue =>
    obtain ⟨family, query, hquery, rfl⟩ := listing_ok (mapError_ok_iff.mp h)
    exact ⟨(writable_listing hquery).mono env.listingFits, _, _, rfl, rfl⟩
  case isFalse =>
    split at h
    case h_1 =>
      obtain ⟨text, -, hd⟩ := bind_ok_iff.mp h
      obtain ⟨hparse, hcommands⟩ := documentOf_ok hd
      exact ⟨Json.writable_of_parse hparse, hcommands⟩
    case h_2 => cases h

/-- A text stands in a file, or is the input, for which a dash stands. -/
inductive Holds (env : Environment) (text : List Char) : String → Prop where
  | file {path : String} (hdash : path ≠ "-") (hname : isName path = true)
      (hfile : env.file path = .ok text) : Holds env text path
  | input (hinput : env.input = .ok text) : Holds env text "-"

/-- A text without carriage returns is read as it is. -/
theorem Holds.textOf {path : String} {text : List Char} (h : Holds env text path)
    (hlines : Text.lineFeeds text = text) : textOf env path = .ok text := by
  cases h with
  | file hdash hname hfile =>
    rw [CommandLine.textOf, if_neg hdash, if_pos hname, hfile]
    exact congrArg Except.ok hlines
  | input hinput => exact hinput

/-! ## Asking -/

/-- A document that cannot be sent: it does not fit into a frame, or there is time left for the
answer, and more than can be waited for. -/
inductive Unaskable (d : Value) (t : Binary64) : Prop
  | tooLong (h : Frame.maxLength < (payloadOf d).length)
  | wait (hp : t.isNonPositive = false)
      (h : ∀ seconds, t.toRat? = some seconds → Channel.maxWait < seconds * 1000)

/-- What comes of asking a worker with a document: the document cannot be sent, which is no error of
the transport, or else there is no answer, or there is one. -/
inductive Asked (w : Worker) (d : Value) (t : Binary64) : Except RequestError Bytes → Prop
  | unaskable {e : RequestError} (h : Unaskable d t) (he : ∀ f, e ≠ .transport f) :
      Asked w d t (.error e)
  | unanswered {e : TransportError} (h : ¬ Unaskable d t) (hr : ∀ reply, ¬ w.Answers d t reply) :
      Asked w d t (.error (.transport e))
  | answered {reply : Bytes} (h : ¬ Unaskable d t) (hr : w.Answers d t reply) :
      Asked w d t (.ok reply)

/-- A time that has not run out can be waited for if it is a number that is not too big. -/
theorem checkWait_ok_iff :
    Channel.checkWait t = .ok () ↔
      ∃ seconds, t.toRat? = some seconds ∧ ¬ Channel.maxWait < seconds * 1000 := by
  cases t with
  | finite s m e => simp [Channel.checkWait, Binary64.toRat?]
  | infinite | nan => simp [Channel.checkWait, Binary64.toRat?]

theorem not_unaskable_iff : ¬ Unaskable d t ↔ (payloadOf d).length ≤ Frame.maxLength ∧
    (t.isNonPositive = true ∨ Channel.checkWait t = .ok ()) := by
  rw [checkWait_ok_iff]
  constructor
  · intro h
    refine ⟨Nat.le_of_not_lt fun hlen ↦ h (.tooLong hlen), ?_⟩
    by_contra hwait
    push Not at hwait
    exact h (.wait (Bool.not_eq_true _ ▸ hwait.1) hwait.2)
  · rintro ⟨hlen, hwait⟩ (h | ⟨hp, h⟩)
    · exact absurd h (Nat.not_lt_of_le hlen)
    · rcases hwait with hwait | ⟨seconds, hs, hle⟩
      · cases hp.symm.trans hwait
      · exact hle (h seconds hs)

/-- The size of the document is looked at first, then the time that is left, then whether it can be
waited for. -/
theorem ask_eq (w : Worker) (payload : Bytes) (t : Binary64) :
    ask w payload t =
      if Frame.maxLength < payload.length then { reply := .error (.tooLarge ⟨payload.length⟩) }
      else if t.isNonPositive then
        { reply := .error (.transport .timedOut), log := [Channel.timeoutRecord t] }
      else match Channel.checkWait t with
        | .error e => { reply := .error e }
        | .ok () =>
          ((w.channel (Frame.frame payload)).exchange payload (Frame.frame payload) t).2 := by
  simp only [ask, Channel.request, Worker.channel, Channel.seconds, Frame.encode]
  by_cases hlen : Frame.maxLength < payload.length
  · simp only [if_pos hlen]
    rfl
  · simp only [if_neg hlen]
    split
    case isTrue => rfl
    case isFalse => cases Channel.checkWait t <;> rfl

/-- A worker that is sent a document answers it, or the exchange fails. -/
theorem asked_exchange (w : Worker) (h : ¬ Unaskable d t) (hp : t.isNonPositive = false) :
    Asked w d t ((w.channel (Frame.frame (payloadOf d))).exchange (payloadOf d)
      (Frame.frame (payloadOf d)) t).2.reply := by
  unfold Channel.exchange
  split
  case isTrue hrefuses =>
    refine .unanswered h ?_
    rintro reply ⟨-, htaken, -⟩
    cases htaken.symm.trans hrefuses
  case isFalse htaken =>
    unfold Channel.receive
    split
    case h_1 reply rest hreply =>
      obtain ⟨hlen, heq⟩ := Frame.eq_of_decode? hreply
      exact .answered h ⟨hp, Bool.not_eq_true _ ▸ htaken, hlen, rest, heq⟩
    case h_2 hnone =>
      have hr : ∀ reply, ¬ w.Answers d t reply := by
        rintro reply ⟨-, -, hlen, rest, heq⟩
        have hreply := Frame.decode?_frame_append hlen rest
        rw [← heq] at hreply
        cases hnone.symm.trans hreply
      dsimp only
      split <;> exact .unanswered h hr

/-- What comes of asking is one of the three. -/
theorem asked (w : Worker) (d : Value) (t : Binary64) : Asked w d t (ask w (payloadOf d) t).reply := by
  rw [ask_eq]
  split
  case isTrue hlen => exact .unaskable (.tooLong hlen) nofun
  case isFalse hlen =>
    have hlen := Nat.le_of_not_lt hlen
    split
    case isTrue hp =>
      refine .unanswered (not_unaskable_iff.mpr ⟨hlen, .inl hp⟩) ?_
      rintro reply ⟨hpositive, -⟩
      cases hpositive.symm.trans hp
    case isFalse hp =>
      split
      case h_1 e hwait =>
        refine .unaskable ?_ (Channel.checkWait_error hwait)
        by_contra h
        rcases (not_unaskable_iff.mp h).2 with hp' | hwait'
        · exact hp hp'
        · cases hwait.symm.trans hwait'
      case h_2 hwait =>
        exact asked_exchange w (not_unaskable_iff.mpr ⟨hlen, .inr hwait⟩) (Bool.not_eq_true _ ▸ hp)

/-! ## Runs -/

/-- The data of a reply can be written, on lines of its own. -/
theorem report_data {room : Nat} {r : Reply} {ms : List String} {v : Value}
    {log : List Log.Record} (h : Outcome.classify room r ms = .ok (.data v, log)) :
    report room (.data v) = { output := Json.indented 0 v ++ ['\n'], ending := .exit 0 } := by
  have hv := Json.writable_of_parse (Outcome.parse_of_classify h)
  rw [report, Json.writeIndented_ok_iff.mpr ⟨hv, rfl⟩]

/-- The reason of a failure can be told. -/
theorem report_failure {room : Nat} {r : Reply} {ms : List String} {reason : Value}
    {malformed : Bool} {log : List Log.Record}
    (h : Outcome.classify room r ms = .ok (.failure reason malformed, log)) :
    report room (.failure reason malformed) = .complain 1 (String.ofList reason.text) := by
  rw [report, Value.text?_ok_iff.mpr ⟨Outcome.hasLiteral_of_classify h, rfl⟩]

/-- The outcome of a reply can be reported. -/
theorem report_ending {room : Nat} {r : Reply} {ms : List String} {outcome : Outcome}
    {log : List Log.Record} (h : Outcome.classify room r ms = .ok (outcome, log)) :
    (report room outcome).ending = .exit (if outcome.ok then 0 else 1) := by
  cases outcome with
  | success => rfl
  | data v =>
    rw [report_data h]
    rfl
  | failure reason malformed =>
    rw [report_failure h]
    rfl

/-- A conversation with a worker that does not crash fails for want of an answer, or reports what
the answer means. -/
theorem converse_returns (hd : Writable env.documentRoom d)
    (h : (converse env w d t o).1.ending = .exit code) :
    (∀ reply, ¬ w.Answers d t reply) ∧ code = 2 ∧ (converse env w d t o).1.output = [] ∨
      ∃ reply outcome log, w.Answers d t reply ∧
        Outcome.classify env.replyRoom (.bytes reply) o.markers = .ok (outcome, log) ∧
        (converse env w d t o).1 = report env.replyRoom outcome := by
  have hasked := asked w d t
  simp only [converse, payload_value hd, conclude] at h ⊢
  generalize (ask w (payloadOf d) t).reply = x at h hasked ⊢
  cases hasked with
  | @unaskable e _ he =>
    cases e with
    | transport f => exact absurd rfl (he f)
    | _ => cases h
  | unanswered _ hr =>
    cases h
    exact .inl ⟨hr, rfl, rfl⟩
  | answered _ hr =>
    simp only at h ⊢
    split at h
    case h_1 outcome log hclassify => exact .inr ⟨_, outcome, log, hr, hclassify, rfl⟩
    case h_2 => cases h

theorem workerOf_ok {command : List String} (h : workerOf a o = .ok command) :
    commandOf a o = .ok command ∧ command ≠ [] := by
  unfold workerOf at h
  split at h
  case h_1 | h_2 => cases h
  case h_3 words hne hc =>
    cases h
    exact ⟨hc, hne⟩

/-- Unless it crashes, a run is over before its worker is started only if the command has no
words. -/
theorem workerOf_error {r : Run} (h : workerOf a o = .error r) (hr : r.ending = .exit code) :
    commandOf a o = .ok [] ∧ code = 2 ∧ r.output = [] := by
  unfold workerOf at h
  split at h
  case h_1 =>
    cases h
    cases hr
  case h_2 hc =>
    cases h
    cases hr
    exact ⟨hc, rfl, rfl⟩
  case h_3 => cases h

/-- A run with a document ends as its worker lets it. -/
theorem run_eq (ha : Arguments.read args = .ok a) (hdry : a.dryRun = false)
    (ho : settings env a = .ok o) (hd : choose env a o = .ok d) :
    run env args = match workerOf a o with
      | .error r => r
      | .ok command =>
        let (r, log) := submit env command d (a.timeout.getD o.timeout) o
        r.after (logLines (threshold a o) (startRecord command :: log)) := by
  simp only [run, ha, perform, ho, hd, hdry, bind, Except.bind]
  cases workerOf a o <;> rfl

/-- A run that ends with an exit code ends with 2 and without output for want of an answer, or
reports what the answer means. -/
theorem run_returns (ha : Arguments.read args = .ok a) (hdry : a.dryRun = false)
    (ho : settings env a = .ok o) (hd : choose env a o = .ok d)
    (h : (run env args).ending = .exit code) :
    Unanswered env a o d ∧ code = 2 ∧ (run env args).output = [] ∨
      ∃ reply outcome log, Answered env a o d reply ∧
        Outcome.classify env.replyRoom (.bytes reply) o.markers = .ok (outcome, log) ∧
        .exit code = (report env.replyRoom outcome).ending ∧
        (run env args).output = (report env.replyRoom outcome).output := by
  rw [run_eq ha hdry ho hd] at h ⊢
  cases hworker : workerOf a o with
  | error r =>
    rw [hworker] at h
    obtain ⟨hc, rfl, hout⟩ := workerOf_error hworker h
    exact .inl ⟨.noCommand hc, rfl, hout⟩
  | ok command =>
    rw [hworker] at h
    obtain ⟨hc, hne⟩ := workerOf_ok hworker
    simp only [submit, Run.after] at h ⊢
    split at h
    case isFalse => cases h
    case isTrue hname =>
      rw [if_pos hname]
      cases hw : env.worker command with
      | error e =>
        rw [hw] at h
        cases e with
        | system e =>
          cases h
          exact .inl ⟨.notStarted hc hne hw, rfl, rfl⟩
        | unencodable => cases h
      | ok w =>
        rw [hw] at h
        rcases converse_returns (choose_ok hd).1 h with
          ⟨hr, hcode, hout⟩ | ⟨reply, outcome, log, hr, hclassify, heq⟩
        · exact .inl ⟨.noReply hc hne hw hr, hcode, hout⟩
        · exact .inr ⟨reply, outcome, log, ⟨hc, hne, hw, hr⟩, hclassify,
            by rw [← heq]; exact h.symm, by rw [← heq]⟩

/-- A run that is to submit the document at a path, and starts a worker for it. -/
structure Submits (env : Environment) (args : List String) (a : Arguments) (o : Options)
    (path : String) (command : List String) (w : Worker) : Prop where
  arguments : Arguments.read args = .ok a
  dryRun : a.dryRun = false
  listRuleset : a.listRuleset = false
  document : given a.document = some path
  options : settings env a = .ok o
  chosen : workerOf a o = .ok command
  names : command.all isName = true
  worker : env.worker command = .ok w

/-- Such a run asks its worker with the payload of the document, and reports what comes of it. -/
theorem Submits.run_eq {path : String} {command : List String}
    (h : Submits env args a o path command w) (hd : choose env a o = .ok d) :
    run env args =
      let (r, log) := conclude env.replyRoom (ask w (payloadOf d) (a.timeout.getD o.timeout)) o
      r.after (logLines (threshold a o) (startRecord command :: log)) := by
  rw [CommandLine.run_eq h.arguments h.dryRun h.options hd, h.chosen]
  simp only [submit, h.names, if_pos, h.worker, converse, payload_value (choose_ok hd).1]

end Nftables.CommandLine
