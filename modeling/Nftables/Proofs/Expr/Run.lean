import Nftables.Proofs.Expr.Call

/-!
# Building expressions

An expression is built by moves, each of which returns a new one: a call by name, or a fragment that
is appended as it is.  This file says what a single step adds, and what holds after all moves of a
script, in which a move that is refused leaves the expression as it was.
-/

namespace Nftables

/-! ## Fragments of conditions and actions -/

section Fragments

variable {family : Family} {protocol : Option Protocol} {f : Fragment}

/-- The key under which a condition is written. -/
def Condition.key : Condition → String
  | .connectionCount .. => "ct count"
  | _ => "match"

theorem Condition.fragment_ok {c : Condition} (h : c.fragment family protocol = .ok f) :
    f.kind = .condition ∧ f.key = c.key := by
  cases c
  all_goals simp only [fragment, bind_ok_iff, pure_ok_iff] at h
  case interface | openField | fragmented | transparent =>
    subst h
    exact ⟨rfl, rfl⟩
  case dscp | icmpType | icmpv6Type | arpOperation | ctState | ctStatus | ctDirection | packetType |
      connectionCount | fingerprint | rawMasked =>
    obtain ⟨_, -, rfl⟩ := h
    exact ⟨rfl, rfl⟩
  case address | port | number | length | raw | inSet =>
    obtain ⟨_, -, _, -, rfl⟩ := h
    exact ⟨rfl, rfl⟩
  case tcpFlags =>
    obtain ⟨_, -, h⟩ := h
    split at h
    · cases h
      exact ⟨rfl, rfl⟩
    · obtain ⟨_, -, rfl⟩ := map_ok_iff.mp h
      exact ⟨rfl, rfl⟩

/-- No condition ends the evaluation of a rule. -/
theorem Condition.terminal_of_fragment {c : Condition} (h : c.fragment family protocol = .ok f) :
    f.terminal = false := by
  rw [Fragment.terminal, (fragment_ok h).2]
  cases c <;> rfl

/-- The key under which an action is written. -/
def Action.key : Action → String
  | .counter _ => "counter"
  | .log .. => "log"
  | .limit .. => "limit"
  | .setNumber .. | .setCt .. | .saveMark | .restoreMark | .setDscp _ | .increment _ | .decrement _
  | .setMss _ => "mangle"
  | .translate kind _ _ => kind
  | .redirect _ => "redirect"
  | .meter .. => "set"
  | .verdict v _ => Vocabulary.wire v
  | .reject _ => "reject"
  | .notrack => "notrack"
  | .queue .. => "queue"
  | .dup .. => "dup"
  | .flowOffload _ => "flow"
  | .synproxy .. => "synproxy"
  | .tproxy .. => "tproxy"

/-- An action is a verdict or another statement. -/
def Action.kind : Action → FragmentKind
  | .verdict .. | .reject _ => .verdict
  | _ => .statement

theorem Action.fragment_ok {a : Action} (h : a.fragment family = .ok f) :
    f.kind = a.kind ∧ f.key = a.key := by
  cases a
  all_goals simp only [fragment, bind_ok_iff, pure_ok_iff] at h
  case counter | setCt | saveMark | restoreMark | increment | decrement | verdict | notrack | dup =>
    subst h
    exact ⟨rfl, rfl⟩
  case setNumber | setDscp | translate | redirect | reject | queue | flowOffload =>
    obtain ⟨_, -, rfl⟩ := h
    exact ⟨rfl, rfl⟩
  case log | synproxy | tproxy =>
    obtain ⟨_, -, _, -, rfl⟩ := h
    exact ⟨rfl, rfl⟩
  case limit | meter =>
    obtain ⟨_, -, _, -, _, -, rfl⟩ := h
    exact ⟨rfl, rfl⟩
  case setMss =>
    split at h
    · cases h
      exact ⟨rfl, rfl⟩
    · obtain ⟨_, -, rfl⟩ := map_ok_iff.mp h
      exact ⟨rfl, rfl⟩

theorem Action.kind_of_fragment {a : Action} (h : a.fragment family = .ok f) :
    f.kind ≠ .condition := by
  rw [(fragment_ok h).1]
  cases a <;> simp [kind]

/-- Of the actions that calls name, the verdicts that close end the evaluation of a rule. -/
theorem Action.terminal_of_fragment {a : Action} (hnamed : (Expr.Step.action a).Named)
    (h : a.fragment family = .ok f) : f.terminal = (Expr.Step.action a).closes := by
  rw [Fragment.terminal, (fragment_ok h).2]
  cases a with
  | translate kind address ports => rcases hnamed with rfl | rfl | rfl <;> rfl
  | verdict v target => cases v <;> rfl
  | _ => rfl

end Fragments

namespace Expr

variable {e e' : Expr} {f : Fragment} {p : Protocol} {c : Condition} {a : Action} {s : Step}

/-! ## Steps -/

/-- An expression with one fragment more. -/
def push (e : Expr) (f : Fragment) : Expr :=
  { e with fragments := e.fragments ++ [f] }

@[simp] theorem push_family : (e.push f).family = e.family := rfl

@[simp] theorem push_protocol : (e.push f).protocol = e.protocol := rfl

@[simp] theorem push_fragments : (e.push f).fragments = e.fragments ++ [f] := rfl

@[simp] theorem closed_push : (e.push f).closed = (e.closed || f.terminal) := by
  simp [closed]

theorem append_ok_iff :
    e.append f = .ok e' ↔ (f.kind = .condition → e.closed = false) ∧ e.push f = e' := by
  unfold append
  split
  case isTrue h => simp [h]
  case isFalse h =>
    rw [not_and, Bool.not_eq_true] at h
    rw [Except.ok.injEq]
    exact ⟨fun he ↦ ⟨h, he⟩, And.right⟩

/-- A closed expression refuses every condition. -/
theorem append_of_closed (hc : e.closed = true) (hf : f.kind = .condition) :
    e.append f = .error (.context .matchAfterVerdict) :=
  if_pos ⟨hf, hc⟩

theorem setProtocol_ok_iff :
    e.setProtocol p = .ok e' ↔ e.closed = false ∧
      { e.push (protocolFragment e.family p) with protocol := some p } = e' := by
  simp only [setProtocol, bind_ok_iff, append_ok_iff, pure_ok_iff]
  constructor
  · rintro ⟨_, ⟨hc, rfl⟩, rfl⟩
    exact ⟨hc rfl, rfl⟩
  · rintro ⟨hc, rfl⟩
    exact ⟨_, ⟨fun _ ↦ hc, rfl⟩, rfl⟩

theorem ensureProtocol_ok_iff :
    e.ensureProtocol p = .ok e' ↔
      e.protocol = some p ∧ e = e' ∨ e.protocol ≠ some p ∧ e.setProtocol p = .ok e' := by
  unfold ensureProtocol
  split
  case isTrue h => simp [h]
  case isFalse h => simp [h]

theorem family_ensureProtocol (h : e.ensureProtocol p = .ok e') : e'.family = e.family := by
  obtain ⟨-, rfl⟩ | ⟨-, h⟩ := ensureProtocol_ok_iff.mp h
  · rfl
  · obtain ⟨-, rfl⟩ := setProtocol_ok_iff.mp h
    rfl

theorem protocol_ensureProtocol (h : e.ensureProtocol p = .ok e') : e'.protocol = some p := by
  obtain ⟨hp, rfl⟩ | ⟨-, h⟩ := ensureProtocol_ok_iff.mp h
  · exact hp
  · obtain ⟨-, rfl⟩ := setProtocol_ok_iff.mp h
    rfl

theorem require_ok_iff :
    e.require c = .ok e' ↔ ∃ f, c.fragment e.family e.protocol = .ok f ∧ e.closed = false ∧
      e.push f = e' := by
  simp only [require, bind_ok_iff, append_ok_iff]
  refine exists_congr fun f ↦ and_congr_right fun hf ↦ and_congr_left fun _ ↦ ?_
  rw [(Condition.fragment_ok hf).1]
  exact ⟨fun h ↦ h rfl, fun h _ ↦ h⟩

theorem perform_ok_iff :
    e.perform a = .ok e' ↔ ∃ f, a.fragment e.family = .ok f ∧ e.push f = e' := by
  simp only [perform, bind_ok_iff, append_ok_iff]
  refine exists_congr fun f ↦ and_congr_right fun hf ↦ and_iff_right fun h ↦ ?_
  exact absurd h (Action.kind_of_fragment hf)

/-- A step adds fragments one by one, a condition only as long as the expression is open, and
besides that changes the protocol and the comment. -/
theorem apply_induction {P : Expr → Prop}
    (push : ∀ e f, (f.kind = .condition → e.closed = false) → P e → P (e.push f))
    (protocol : ∀ e p, P e → P { e with protocol := p })
    (comment : ∀ e text, P e → P (e.withComment text))
    (he : P e) (h : e.apply s = .ok e') : P e' := by
  have hset {e e' : Expr} {p : Protocol} (he : P e) (h : e.setProtocol p = .ok e') : P e' := by
    obtain ⟨hc, rfl⟩ := setProtocol_ok_iff.mp h
    exact protocol _ _ (push _ _ (fun _ ↦ hc) he)
  have hrequire {e e' : Expr} {c : Condition} (he : P e) (h : e.require c = .ok e') : P e' := by
    obtain ⟨f, -, hc, rfl⟩ := require_ok_iff.mp h
    exact push _ _ (fun _ ↦ hc) he
  cases s with
  | comment text =>
    cases h
    exact comment _ _ he
  | append f =>
    obtain ⟨hf, rfl⟩ := append_ok_iff.mp h
    exact push _ _ hf he
  | protocol name =>
    obtain ⟨p, -, h⟩ := bind_ok_iff.mp h
    exact hset he h
  | within p c =>
    obtain ⟨e₁, h₁, h⟩ := bind_ok_iff.mp h
    obtain ⟨-, rfl⟩ | ⟨-, h₁⟩ := ensureProtocol_ok_iff.mp h₁
    · exact hrequire he h
    · exact hrequire (hset he h₁) h
  | condition c => exact hrequire he h
  | action a =>
    obtain ⟨f, hf, rfl⟩ := perform_ok_iff.mp h
    exact push _ _ (fun hk ↦ absurd hk (Action.kind_of_fragment hf)) he

/-- A step keeps the family. -/
theorem family_apply (h : e.apply s = .ok e') : e'.family = e.family :=
  apply_induction (P := fun e' ↦ e'.family = e.family) (fun _ _ _ ↦ id) (fun _ _ ↦ id)
    (fun _ _ ↦ id) rfl h

/-! ## Scripts -/

theorem fragments_of_begin {family : Value} (h : begin family = .ok e) : e.fragments = [] := by
  obtain ⟨f, -, h⟩ := bind_ok_iff.mp h
  cases h
  rfl

/-- A move in the construction of an expression: a call by name, or a fragment appended as it is. -/
inductive Move where
  | call (c : Call)
  | append (f : Fragment)

/-- The step that a move stands for. -/
def Move.step : Move → Except ShapeError Step
  | .call c => Step.ofCall c
  | .append f => .ok (.append f)

def move (e : Expr) (m : Move) : Except BuildError Expr := do
  e.apply (← m.step)

/-- The expression after a script of moves, of which those that are refused leave it as it is. -/
def after (e : Expr) : List Move → Expr
  | [] => e
  | m :: ms =>
    match e.move m with
    | .ok e' => e'.after ms
    | .error _ => e.after ms

/-- The moves of a script that are not refused. -/
def accepted (e : Expr) : List Move → List Move
  | [] => []
  | m :: ms =>
    match e.move m with
    | .ok e' => m :: e'.accepted ms
    | .error _ => e.accepted ms

theorem move_ok_iff {m : Move} :
    e.move m = .ok e' ↔ ∃ s, m.step = .ok s ∧ e.apply s = .ok e' := by
  simp [move]

/-- What every accepted move preserves holds after every script. -/
theorem after_induction {P : Expr → Prop} {ms : List Move}
    (move : ∀ e m e', m ∈ ms → P e → e.move m = .ok e' → P e') (he : P e) : P (e.after ms) := by
  induction ms generalizing e with
  | nil => exact he
  | cons m ms ih =>
    have hrest {e₁ : Expr} (he₁ : P e₁) : P (e₁.after ms) :=
      ih (fun e m' e' hm ↦ move e m' e' (List.mem_cons_of_mem _ hm)) he₁
    rw [after]
    split
    case h_1 e' h => exact hrest (move e m e' List.mem_cons_self he h)
    case h_2 => exact hrest he

theorem family_after (e : Expr) (ms : List Move) : (e.after ms).family = e.family := by
  refine after_induction (P := fun e' ↦ e'.family = e.family) (fun e₁ m e' _ he h ↦ ?_) rfl
  obtain ⟨s, -, h⟩ := move_ok_iff.mp h
  exact (family_apply h).trans he

end Expr
end Nftables
