import Nftables.Proofs.Expr.Run

/-!
# Closed expressions

After a verdict at which the evaluation of a rule ends, nothing is asked of the packet any more.  In
no expression does a condition stand behind such a verdict: an expression that is closed stays
closed, and refuses every move that would add a condition.
-/

namespace Nftables

/-! ## Conditions in another context -/

namespace Condition

variable {family : Family} {q : Option Protocol} {c : Condition} {f : Fragment}

/-- In the context of another protocol, or of none, the field that is looked up in a set is either
found too or refused for the context. -/
theorem setField_of_protocol {field left : Value} (h : setField family q field = .ok left)
    (q' : Option Protocol) :
    (∃ left', setField family q' field = .ok left') ∨
      ∃ x, setField family q' field = .error (.context x) := by
  unfold setField at h ⊢
  split at h
  case h_1 | h_2 => exact .inl ⟨_, rfl⟩
  case h_3 | h_4 =>
    cases portProtocol _ q' with
    | ok p => exact .inl ⟨_, rfl⟩
    | error x => exact .inr ⟨x, rfl⟩
  case h_5 => cases h

/-- In the context of another protocol, or of none, a condition is either admitted too or refused
for the context. -/
theorem fragment_of_protocol (h : c.fragment family q = .ok f) (q' : Option Protocol) :
    (∃ f', c.fragment family q' = .ok f') ∨
      ∃ x, c.fragment family q' = .error (.context x) := by
  cases c with
  | port endpoint ports negated =>
    simp only [fragment, bind_ok_iff] at h
    obtain ⟨_, -, ps, hps, -⟩ := h
    simp only [fragment, hps]
    cases portProtocol endpoint.portField q' with
    | ok p => exact .inl ⟨_, rfl⟩
    | error x => exact .inr ⟨x, rfl⟩
  | inSet name field negated =>
    simp only [fragment, bind_ok_iff] at h
    obtain ⟨left, hleft, right, hright, -⟩ := h
    simp only [fragment, hright]
    obtain ⟨left', hleft'⟩ | ⟨x, hx⟩ := setField_of_protocol hleft q'
    · exact .inl ⟨_, by rw [hleft']; rfl⟩
    · exact .inr ⟨x, by rw [hx]; rfl⟩
  | _ => exact .inl ⟨f, h⟩

end Condition

namespace Expr

variable {e e' u u' : Expr} {f : Fragment} {p : Protocol} {c : Condition} {s : Step} {m : Move}

/-! ## The order of fragments -/

/-- No condition stands after a fragment at which the evaluation of the rule ends. -/
def Orderly (e : Expr) : Prop :=
  e.fragments.Pairwise fun f g ↦ f.terminal = true → g.kind ≠ .condition

theorem orderly_push (he : e.Orderly) (hf : f.kind = .condition → e.closed = false) :
    (e.push f).Orderly := by
  refine List.pairwise_append.mpr ⟨he, List.pairwise_singleton _ _, fun g hg f' hf' hterminal ↦ ?_⟩
  obtain rfl := List.mem_singleton.mp hf'
  intro hkind
  have hclosed : e.closed = true := List.any_eq_true.mpr ⟨g, hg, hterminal⟩
  exact absurd hclosed (by simp [hf hkind])

theorem orderly_apply (he : e.Orderly) (h : e.apply s = .ok e') : e'.Orderly :=
  apply_induction (fun _ _ hf he ↦ orderly_push he hf) (fun _ _ ↦ id) (fun _ _ ↦ id) he h

theorem orderly_after (he : e.Orderly) (ms : List Move) : (e.after ms).Orderly := by
  refine after_induction (fun e m e' _ he h ↦ ?_) he
  obtain ⟨s, -, h⟩ := move_ok_iff.mp h
  exact orderly_apply he h

/-! ## Closing -/

/-- Does a move end the evaluation of the rule?  A call does by its name. -/
def Move.closes : Move → Bool
  | .call c => Step.closingCalls.contains c.name
  | .append f => f.terminal

/-- A step that a call names closes an expression if it is one that closes. -/
theorem closed_apply_of_named (hs : s.Named) (h : e.apply s = .ok e') :
    e'.closed = (e.closed || s.closes) := by
  have hset {e e' : Expr} {p : Protocol} (h : e.setProtocol p = .ok e') : e'.closed = e.closed := by
    obtain ⟨-, rfl⟩ := setProtocol_ok_iff.mp h
    exact closed_push.trans (Bool.or_false _)
  have hrequire {e e' : Expr} {c : Condition} (h : e.require c = .ok e') :
      e'.closed = e.closed := by
    obtain ⟨f, hf, -, rfl⟩ := require_ok_iff.mp h
    rw [closed_push, Condition.terminal_of_fragment hf, Bool.or_false]
  cases s with
  | comment text =>
    cases h
    exact (Bool.or_false _).symm
  | append f => exact hs.elim
  | protocol name =>
    obtain ⟨p, -, h⟩ := bind_ok_iff.mp h
    exact (hset h).trans (Bool.or_false _).symm
  | within p c =>
    obtain ⟨e₁, h₁, h⟩ := bind_ok_iff.mp h
    refine (hrequire h).trans (Eq.trans ?_ (Bool.or_false _).symm)
    obtain ⟨-, rfl⟩ | ⟨-, h₁⟩ := ensureProtocol_ok_iff.mp h₁
    · rfl
    · exact hset h₁
  | condition c => exact (hrequire h).trans (Bool.or_false _).symm
  | action a =>
    obtain ⟨f, hf, rfl⟩ := perform_ok_iff.mp h
    rw [closed_push, Action.terminal_of_fragment hs hf]

theorem closed_move (h : e.move m = .ok e') : e'.closed = (e.closed || m.closes) := by
  obtain ⟨s, hs, happly⟩ := move_ok_iff.mp h
  cases m with
  | call c =>
    obtain ⟨hnamed, hcloses⟩ := Step.ofCall_ok hs
    rw [closed_apply_of_named hnamed happly, hcloses, Move.closes]
  | append f =>
    cases hs
    obtain ⟨-, rfl⟩ := append_ok_iff.mp happly
    exact closed_push

/-- An expression is closed after a script if it was before, or if an accepted move closes. -/
theorem closed_after (e : Expr) (ms : List Move) :
    (e.after ms).closed = (e.closed || (e.accepted ms).any Move.closes) := by
  induction ms generalizing e with
  | nil => exact (Bool.or_false _).symm
  | cons m ms ih =>
    cases h : e.move m with
    | ok e' =>
      simp only [after, accepted, h]
      rw [ih, closed_move h, List.any_cons, Bool.or_assoc]
    | error x =>
      simp only [after, accepted, h]
      exact ih e

/-! ## Refusals -/

/-- Is there a condition among the fragments that one expression has more than another? -/
def AddsCondition (e e' : Expr) : Prop :=
  ∃ fs, e'.fragments = e.fragments ++ fs ∧ ∃ f ∈ fs, f.kind = .condition

theorem addsCondition_push : AddsCondition e (e.push f) ↔ f.kind = .condition := by
  constructor
  · rintro ⟨fs, hfs, g, hg, hkind⟩
    obtain rfl := List.append_cancel_left hfs
    obtain rfl := List.mem_singleton.mp hg
    exact hkind
  · intro hkind
    exact ⟨[f], rfl, f, List.mem_singleton_self f, hkind⟩

theorem setProtocol_of_closed (he : e.closed = true) :
    e.setProtocol p = .error (.context .matchAfterVerdict) := by
  rw [setProtocol, append_of_closed he rfl]
  rfl

theorem require_of_closed (he : e.closed = true) (hfamily : u.family = e.family)
    (h : u.require c = .ok u') : ∃ x, e.require c = .error (.context x) := by
  obtain ⟨f, hf, -, rfl⟩ := require_ok_iff.mp h
  rw [hfamily] at hf
  rw [require]
  obtain ⟨f', hf'⟩ | ⟨x, hx⟩ := Condition.fragment_of_protocol hf e.protocol
  · exact ⟨.matchAfterVerdict, by rw [hf']; exact append_of_closed he (Condition.fragment_ok hf').1⟩
  · exact ⟨x, by rw [hx]; rfl⟩

/-- A closed expression refuses for its context what adds a condition to another expression of its
family. -/
theorem apply_of_closed (he : e.closed = true) (hfamily : u.family = e.family)
    (h : u.apply s = .ok u') (hadds : AddsCondition u u') :
    ∃ x, e.apply s = .error (.context x) := by
  cases s with
  | comment text =>
    cases h
    obtain ⟨fs, hfs, f, hf, -⟩ := hadds
    rw [List.self_eq_append_right.mp hfs] at hf
    cases hf
  | append f =>
    obtain ⟨-, rfl⟩ := append_ok_iff.mp h
    exact ⟨_, append_of_closed he (addsCondition_push.mp hadds)⟩
  | protocol name =>
    obtain ⟨p, hp, -⟩ := bind_ok_iff.mp h
    exact ⟨.matchAfterVerdict, by rw [apply, hp]; exact setProtocol_of_closed he⟩
  | within p c =>
    obtain ⟨u₁, h₁, h⟩ := bind_ok_iff.mp h
    by_cases hp : e.protocol = some p
    · have hfamily₁ := (family_ensureProtocol h₁).trans hfamily
      obtain ⟨x, hx⟩ := require_of_closed he hfamily₁ h
      exact ⟨x, by rw [apply, ensureProtocol, if_pos hp]; exact hx⟩
    · exact ⟨.matchAfterVerdict,
        by rw [apply, ensureProtocol, if_neg hp, setProtocol_of_closed he]; rfl⟩
  | condition c => exact require_of_closed he hfamily h
  | action a =>
    obtain ⟨f, hf, rfl⟩ := perform_ok_iff.mp h
    exact absurd (addsCondition_push.mp hadds) (Action.kind_of_fragment hf)

/-- **Nothing is asked after a verdict.**  In an expression that any script leads to, no condition
stands after a fragment at which the evaluation of the rule ends.  Once closed it stays closed, and
refuses for its context each move that would add a condition and has valid arguments: one that adds
a condition to some other expression of its family.  It is closed if and only if one of the accepted
moves closes. -/
theorem no_condition_after_verdict {family : Value} {e : Expr} (h : begin family = .ok e)
    (ms : List Move) :
    (e.after ms).fragments.Pairwise (fun f g ↦ f.terminal = true → g.kind ≠ .condition) ∧
      ((e.after ms).closed = true →
        (∀ ms', ((e.after ms).after ms').closed = true) ∧
        ∀ m u u', u.family = e.family → u.move m = .ok u' → AddsCondition u u' →
          ∃ x, (e.after ms).move m = .error (.context x)) ∧
      ((e.after ms).closed = true ↔ ∃ m ∈ e.accepted ms, m.closes = true) := by
  have hfragments : e.fragments = [] := fragments_of_begin h
  have hopen : e.closed = false := by rw [closed, hfragments, List.any_nil]
  refine ⟨?_, fun hclosed ↦ ⟨fun ms' ↦ ?_, fun m u u' hfamily hm hadds ↦ ?_⟩, ?_⟩
  · have horderly : e.Orderly := by rw [Orderly, hfragments]; exact .nil
    exact orderly_after horderly ms
  · rw [closed_after, hclosed, Bool.true_or]
  · obtain ⟨s, hs, hu⟩ := move_ok_iff.mp hm
    obtain ⟨x, hx⟩ := apply_of_closed hclosed (hfamily.trans (family_after e ms).symm) hu hadds
    exact ⟨x, by rw [move, hs]; exact hx⟩
  · rw [closed_after, hopen, Bool.false_or, List.any_eq_true]

/-- Packets to a port are accepted, which closes the rule; a condition on GRE comes too late. -/
def acceptPort : List Move :=
  [.call ⟨"tcp", [], []⟩, .call ⟨"dport", [.int 22], []⟩, .call ⟨"dport", [.str "ssh"], []⟩,
    .call ⟨"accept", [], []⟩, .call ⟨"gre_key", [.int 5], []⟩, .call ⟨"counter", [], []⟩]

/-- Of six moves two are refused.  What is left is closed by a verdict, and refuses a condition that
the expression before it takes. -/
theorem no_condition_after_verdict_acceptPort :
    ∃ e, begin (.str "inet") = .ok e ∧ (e.after acceptPort).fragments.length = 4 ∧
      (e.after acceptPort).fragments.Pairwise
        (fun f g ↦ f.terminal = true → g.kind ≠ .condition) ∧
      (e.after acceptPort).closed = true ∧
      (∃ x, (e.after acceptPort).move (.call ⟨"gre_key", [.int 5], []⟩) = .error (.context x)) ∧
      ∃ m ∈ e.accepted acceptPort, m.closes = true := by
  have hbegin : begin (.str "inet") = .ok { family := .inet } := rfl
  obtain ⟨horderly, hclosed, hcloses⟩ := no_condition_after_verdict hbegin acceptPort
  have hadds : ∃ u', ({ family := .inet } : Expr).move (.call ⟨"gre_key", [.int 5], []⟩) = .ok u' ∧
      AddsCondition { family := .inet } u' :=
    ⟨_, rfl, _, rfl, _, .head _, rfl⟩
  obtain ⟨u', hu, hadds⟩ := hadds
  exact ⟨_, hbegin, rfl, horderly, rfl, (hclosed rfl).2 _ _ u' rfl hu hadds, hcloses.mp rfl⟩

end Expr
end Nftables
