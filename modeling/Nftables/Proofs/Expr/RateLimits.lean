import Nftables.Proofs.Expr.Ports

/-!
# Rate limits

A rate limit stands in a rule as a statement of its own, or among the statements of a set, where a
meter keeps it for each key.  The two are checked apart: both have a rate in range and a known unit,
but a meter takes any burst.  So the limits of a rule are in range exactly if no meter was given a
burst out of range.
-/

namespace Nftables

/-! ## Limits in a statement -/

namespace Value

/-- An integer within bounds. -/
def InBounds (low high : Int) (v : Value) : Prop :=
  ∃ n, v = .int n ∧ low ≤ n ∧ n ≤ high

/-- A burst that is left out or in range. -/
def IsBurst (v : Value) : Prop :=
  v = .null ∨ v.InBounds 0 max32

/-- A limit that stands in a statement: it is the statement, or one of those of a set. -/
inductive HasLimit : Value → Value → Prop where
  | alone {v l : Value} (h : v.get? "limit" = some l) : HasLimit v l
  | inSet {v s w l : Value} {ws : List Value} (hset : v.get? "set" = some s)
      (hws : s.get? "stmt" = some (.list ws)) (hw : w ∈ ws) (h : w.get? "limit" = some l) :
      HasLimit v l

/-- A limit with a rate in range and a known unit. -/
structure HasRate (l : Value) : Prop where
  rate : ∃ r, l.get? "rate" = some r ∧ r.InBounds 0 max64
  unit : ∃ u : RateUnit, l.get? "per" = some (.str (Vocabulary.wire u))

/-- A limit whose burst, if it has one, is in range. -/
def BurstInRange (l : Value) : Prop :=
  ∀ b, l.get? "burst" = some b → b.InBounds 0 max32

def Limitless (v : Value) : Prop := ∀ l, ¬ v.HasLimit l

variable {l l' : Value}

theorem hasLimit_single_limit : (Term.single "limit" l).HasLimit l' ↔ l' = l := by
  constructor
  · rintro (h | ⟨hset, -⟩)
    · exact (Option.some.inj h).symm
    · cases hset
  · rintro rfl
    exact .alone rfl

theorem limitless_single {key : String} (h : key ∉ ["limit", "set"]) :
    (Term.single key l).Limitless := by
  simp only [List.mem_cons, List.not_mem_nil, or_false, not_or] at h
  rintro l' (hl | ⟨hl, -⟩)
  · simp [Term.single, get?, lookup, h.1] at hl
  · simp [Term.single, get?, lookup, h.2] at hl

end Value

/-! ## Limits of conditions and actions -/

section Fragments

variable {family : Family} {protocol : Option Protocol} {f : Fragment}

theorem Condition.limitless_fragment {c : Condition} (h : c.fragment family protocol = .ok f) :
    f.body.Limitless := by
  rw [Fragment.body, (fragment_ok h).2]
  refine Value.limitless_single ?_
  cases c <;> simp [key]

/-- Of the actions that calls name, only limits and meters limit a rate. -/
theorem Action.limitless_fragment {a : Action} (hnamed : (Expr.Step.action a).Named)
    (hlimit : ∀ rate per burst above, a ≠ .limit rate per burst above)
    (hmeter : ∀ op key set rate per burst, a ≠ .meter op key set rate per burst)
    (h : a.fragment family = .ok f) : f.body.Limitless := by
  rw [Fragment.body, (fragment_ok h).2]
  refine Value.limitless_single ?_
  cases a with
  | limit rate per burst above => exact absurd rfl (hlimit rate per burst above)
  | meter op key set rate per burst => exact absurd rfl (hmeter op key set rate per burst)
  | translate kind address ports => obtain rfl | rfl | rfl := hnamed <;> simp [key]
  | verdict v target => cases v <;> simp [key, Vocabulary.wire]
  | _ => simp [key]

theorem Action.int_ok_iff {what : String} {low high : Int} {v w : Value} :
    Action.int what low high v = .ok w ↔ v.InBounds low high ∧ v = w := by
  simp only [Action.int, map_ok_iff, Value.bounded_ok_iff, Value.InBounds]
  constructor
  · rintro ⟨n, ⟨rfl, hn⟩, rfl⟩
    exact ⟨⟨n, rfl, hn⟩, rfl⟩
  · rintro ⟨⟨n, rfl, hn⟩, rfl⟩
    exact ⟨n, ⟨rfl, hn⟩, rfl⟩

theorem Action.unit_ok {v : Value} {per : String} (h : Action.unit v = .ok per) :
    ∃ u : RateUnit, per = Vocabulary.wire u := by
  obtain ⟨u, -, h⟩ := bind_ok_iff.mp h
  exact ⟨u, (Except.ok.inj h).symm⟩

/-- The limit that both a statement of its own and a meter write. -/
def rateLimit (rate : Value) (per : String) (burst : Value) (above : Bool) : Value :=
  (Fragment.limit rate per burst .null above).value

variable {rate per' burst : Value} {per : String} {above : Bool}

theorem hasRate_rateLimit {u : RateUnit} (hrate : rate.InBounds 0 Value.max64) :
    (rateLimit rate (Vocabulary.wire u) burst above).HasRate :=
  ⟨⟨rate, rfl, hrate⟩, u, rfl⟩

theorem burstInRange_rateLimit :
    (rateLimit rate per burst above).BurstInRange ↔ burst.IsBurst := by
  by_cases hn : burst = .null
  · subst hn
    cases above <;> simp [rateLimit, Fragment.limit, Fragment.statement, Fragment.given,
      Value.BurstInRange, Value.IsBurst, Value.get?, Value.lookup]
  · have hnull : burst.isNull = false := by
      rwa [← Bool.not_eq_true, Value.isNull_eq_true_iff]
    cases above <;> simp [rateLimit, Fragment.limit, Fragment.statement, Fragment.given,
      Value.BurstInRange, Value.IsBurst, Value.get?, Value.lookup, hn, hnull]

/-- A limit of its own has all that a limit has in range. -/
theorem limit_fragment (h : (Action.limit rate per' burst above).fragment family = .ok f) :
    ∃ l, f.body = Term.single "limit" l ∧ l.HasRate ∧ l.BurstInRange := by
  simp only [Action.fragment, bind_ok_iff, liftM_argument_ok_iff, pure_ok_iff] at h
  obtain ⟨r, hr, b, hb, per, hper, rfl⟩ := h
  obtain ⟨hrate, rfl⟩ := Action.int_ok_iff.mp hr
  obtain ⟨u, rfl⟩ := Action.unit_ok hper
  refine ⟨rateLimit rate (Vocabulary.wire u) b above, rfl, hasRate_rateLimit hrate,
    burstInRange_rateLimit.mpr ?_⟩
  unfold Action.optionally at hb
  split at hb
  · exact .inl (Except.ok.inj hb).symm
  · obtain ⟨hburst, rfl⟩ := Action.int_ok_iff.mp hb
    exact .inr hburst

/-- A meter has one limit, with the burst as it was given. -/
theorem meter_fragment {op : String} {key set : Value}
    (h : (Action.meter op key set rate per' burst).fragment family = .ok f) :
    ∃ l, (∀ l', f.body.HasLimit l' ↔ l' = l) ∧ f.body.get? "limit" = none ∧ l.HasRate ∧
      (l.BurstInRange ↔ burst.IsBurst) := by
  simp only [Action.fragment, bind_ok_iff, liftM_argument_ok_iff, liftM_shape_ok_iff,
    pure_ok_iff] at h
  obtain ⟨per, hper, r, hr, ref, -, rfl⟩ := h
  obtain ⟨hrate, rfl⟩ := Action.int_ok_iff.mp hr
  obtain ⟨u, rfl⟩ := Action.unit_ok hper
  refine ⟨rateLimit rate (Vocabulary.wire u) burst false, fun l' ↦ ⟨?_, ?_⟩, rfl,
    hasRate_rateLimit hrate, burstInRange_rateLimit⟩
  · rintro (hl | ⟨hset, hws, hw, hl⟩)
    · cases hl
    · cases hset
      cases hws
      obtain rfl := List.mem_singleton.mp hw
      exact (Option.some.inj hl).symm
  · rintro rfl
    exact .inSet rfl rfl (List.mem_singleton_self _) rfl

variable {a : Action} {l : Value}

theorem Action.hasRate_of_fragment (hnamed : (Expr.Step.action a).Named)
    (h : a.fragment family = .ok f) (hl : f.body.HasLimit l) : l.HasRate := by
  cases a with
  | limit rate per burst above =>
    obtain ⟨l', hbody, hrate, -⟩ := limit_fragment h
    rw [hbody, Value.hasLimit_single_limit] at hl
    exact hl ▸ hrate
  | meter op key set rate per burst =>
    obtain ⟨l', hlimit, -, hrate, -⟩ := meter_fragment h
    exact (hlimit l).mp hl ▸ hrate
  | _ => exact absurd hl (limitless_fragment hnamed nofun nofun h l)

theorem Action.burstInRange_of_alone (hnamed : (Expr.Step.action a).Named)
    (h : a.fragment family = .ok f) (hl : f.body.get? "limit" = some l) : l.BurstInRange := by
  cases a with
  | limit rate per burst above =>
    obtain ⟨l', hbody, -, hburst⟩ := limit_fragment h
    rw [hbody] at hl
    exact Option.some.inj hl ▸ hburst
  | meter op key set rate per burst =>
    obtain ⟨l', -, hnone, -⟩ := meter_fragment h
    cases hnone.symm.trans hl
  | _ => exact absurd (.alone hl) (limitless_fragment hnamed nofun nofun h l)

/-- The bursts that an action writes are in range, unless it is a meter with a burst that is not. -/
theorem Action.burstInRange_iff (hnamed : (Expr.Step.action a).Named)
    (h : a.fragment family = .ok f) :
    (∀ l, f.body.HasLimit l → l.BurstInRange) ↔
      ∀ op key set rate per burst, a = .meter op key set rate per burst → burst.IsBurst := by
  cases a with
  | limit rate per burst above =>
    obtain ⟨l', hbody, -, hburst⟩ := limit_fragment h
    simp [hbody, Value.hasLimit_single_limit, hburst]
  | meter op key set rate per burst =>
    obtain ⟨l', hlimit, -, -, hburst⟩ := meter_fragment h
    constructor
    · rintro hall _ _ _ _ _ _ ⟨⟩
      exact hburst.mp (hall l' ((hlimit l').mpr rfl))
    · intro hmeter l hl
      rw [(hlimit l).mp hl]
      exact hburst.mpr (hmeter _ _ _ _ _ _ rfl)
  | _ =>
    exact iff_of_true (fun l hl ↦ absurd hl (limitless_fragment hnamed nofun nofun h l)) nofun

end Fragments

namespace Expr

variable {e e' : Expr} {s : Step} {f : Fragment} {P : Value → Prop}

/-! ## Steps and scripts -/

theorem forall_toList_push :
    (∀ v ∈ (e.push f).toList, P v) ↔ (∀ v ∈ e.toList, P v) ∧ P f.body := by
  simp [toList, or_imp, forall_and]

theorem limitless_protocolFragment (family : Family) (p : Protocol) :
    (protocolFragment family p).body.Limitless :=
  Value.limitless_single (by simp [protocolFragment, Fragment.condition])

/-- What holds of all statements without limits holds after a step of all if it did before, and
holds of the statement that the step adds if that is an action. -/
theorem forall_toList_apply (hP : ∀ v : Value, v.Limitless → P v) (hs : s.Named)
    (h : e.apply s = .ok e') :
    (∀ v ∈ e'.toList, P v) ↔ (∀ v ∈ e.toList, P v) ∧
      ∀ a f, s = .action a → a.fragment e.family = .ok f → P f.body := by
  have hset {e e' : Expr} {p : Protocol} (h : e.setProtocol p = .ok e') :
      (∀ v ∈ e'.toList, P v) ↔ ∀ v ∈ e.toList, P v := by
    obtain ⟨-, rfl⟩ := setProtocol_ok_iff.mp h
    exact forall_toList_push.trans (and_iff_left (hP _ (limitless_protocolFragment _ _)))
  have hrequire {e e' : Expr} {c : Condition} (h : e.require c = .ok e') :
      (∀ v ∈ e'.toList, P v) ↔ ∀ v ∈ e.toList, P v := by
    obtain ⟨f, hf, -, rfl⟩ := require_ok_iff.mp h
    exact forall_toList_push.trans (and_iff_left (hP _ (Condition.limitless_fragment hf)))
  have hother (hs : ∀ a, s ≠ .action a) (hsame : (∀ v ∈ e'.toList, P v) ↔ ∀ v ∈ e.toList, P v) :
      (∀ v ∈ e'.toList, P v) ↔ (∀ v ∈ e.toList, P v) ∧
        ∀ a f, s = .action a → a.fragment e.family = .ok f → P f.body :=
    hsame.trans (and_iff_left fun a _ ha ↦ absurd ha (hs a)).symm
  cases s with
  | comment text =>
    cases h
    exact hother nofun .rfl
  | append f => exact hs.elim
  | protocol name =>
    obtain ⟨p, -, h⟩ := bind_ok_iff.mp h
    exact hother nofun (hset h)
  | within p c =>
    obtain ⟨e₁, h₁, h⟩ := bind_ok_iff.mp h
    refine hother nofun ((hrequire h).trans ?_)
    obtain ⟨-, rfl⟩ | ⟨-, h₁⟩ := ensureProtocol_ok_iff.mp h₁
    · exact .rfl
    · exact hset h₁
  | condition c => exact hother nofun (hrequire h)
  | action a =>
    obtain ⟨f, hf, rfl⟩ := perform_ok_iff.mp h
    refine forall_toList_push.trans (and_congr_right fun _ ↦ ⟨fun hp a' f' ha hf' ↦ ?_, ?_⟩)
    · cases ha
      cases hf.symm.trans hf'
      exact hp
    · exact fun hp ↦ hp a f rfl hf

/-- What holds of all statements after a script held of all before, and was kept by each move that
was accepted. -/
theorem forall_toList_after {Q : Move → Prop} {ms : List Move}
    (hmove : ∀ (e : Expr) m e', m ∈ ms → e.move m = .ok e' →
      ((∀ v ∈ e'.toList, P v) ↔ (∀ v ∈ e.toList, P v) ∧ Q m)) :
    (∀ v ∈ (e.after ms).toList, P v) ↔
      (∀ v ∈ e.toList, P v) ∧ ∀ m ∈ e.accepted ms, Q m := by
  induction ms generalizing e with
  | nil => simp [after, accepted]
  | cons m ms ih =>
    have ih {e : Expr} : (∀ v ∈ (e.after ms).toList, P v) ↔
        (∀ v ∈ e.toList, P v) ∧ ∀ m ∈ e.accepted ms, Q m :=
      ih fun e m' e' hm ↦ hmove e m' e' (List.mem_cons_of_mem _ hm)
    cases h : e.move m with
    | ok e' =>
      simp only [after, accepted, h]
      rw [ih, hmove e m e' List.mem_cons_self h, List.forall_mem_cons, and_assoc]
    | error x =>
      simp only [after, accepted, h]
      exact ih

theorem toList_of_begin {family : Value} (h : begin family = .ok e) : e.toList = [] := by
  rw [toList, fragments_of_begin h, List.map_nil]

/-- If the move is a meter, its burst is left out or in range. -/
def Move.BurstInRange (m : Move) : Prop :=
  ∀ op key set rate per burst, m.step = .ok (.action (.meter op key set rate per burst)) →
    burst.IsBurst

section Calls

variable {family : Value} {calls : List Call}

/-- What holds of all statements without limits holds of all after some calls, if each call that was
accepted keeps it in case it is an action. -/
theorem forall_toList_calls (hP : ∀ v : Value, v.Limitless → P v) {Q : Move → Prop}
    (haction : ∀ (m : Move) s (e e' : Expr), m.step = .ok s → s.Named → e.apply s = .ok e' →
      ((∀ a f, s = .action a → a.fragment e.family = .ok f → P f.body) ↔ Q m))
    (h : begin family = .ok e) :
    (∀ v ∈ (e.after (calls.map .call)).toList, P v) ↔
      ∀ m ∈ e.accepted (calls.map .call), Q m := by
  have hmove (e : Expr) (m : Move) (e' : Expr) (hm : m ∈ calls.map .call)
      (h : e.move m = .ok e') :
      (∀ v ∈ e'.toList, P v) ↔ (∀ v ∈ e.toList, P v) ∧ Q m := by
    obtain ⟨c, -, rfl⟩ := List.mem_map.mp hm
    obtain ⟨s, hs, h⟩ := move_ok_iff.mp h
    have hnamed := (Step.ofCall_ok hs).1
    rw [forall_toList_apply hP hnamed h, haction _ s e e' hs hnamed h]
  rw [forall_toList_after hmove, toList_of_begin h]
  simp

theorem hasRate_of_calls (h : begin family = .ok e) :
    ∀ v ∈ (e.after (calls.map .call)).toList, ∀ l, v.HasLimit l → l.HasRate := by
  refine (forall_toList_calls (Q := fun _ ↦ True) (fun v hv l hl ↦ absurd hl (hv l))
    (fun m s e e' hs hnamed h ↦ ?_) h).mpr fun _ _ ↦ trivial
  refine iff_of_true (fun a f ha hf l hl ↦ ?_) trivial
  exact Action.hasRate_of_fragment (ha ▸ hnamed) hf hl

theorem burstInRange_of_calls (h : begin family = .ok e) :
    ∀ v ∈ (e.after (calls.map .call)).toList, ∀ l, v.get? "limit" = some l → l.BurstInRange := by
  refine (forall_toList_calls (Q := fun _ ↦ True) (fun v hv l hl ↦ absurd (.alone hl) (hv l))
    (fun m s e e' hs hnamed h ↦ ?_) h).mpr fun _ _ ↦ trivial
  refine iff_of_true (fun a f ha hf l hl ↦ ?_) trivial
  exact Action.burstInRange_of_alone (ha ▸ hnamed) hf hl

/-- The bursts that calls lead to are in range if those of the meters among them are. -/
theorem burstsInRange_iff (h : begin family = .ok e) :
    (∀ v ∈ (e.after (calls.map .call)).toList, ∀ l, v.HasLimit l → l.BurstInRange) ↔
      ∀ m ∈ e.accepted (calls.map .call), m.BurstInRange := by
  refine forall_toList_calls (fun v hv l hl ↦ absurd hl (hv l))
    (fun m s e e' hs hnamed h ↦ ⟨fun haction ↦ ?_, fun hm a f ha hf ↦ ?_⟩) h
  · intro op key set rate per burst hmeter
    cases hs.symm.trans hmeter
    obtain ⟨f, hf, -⟩ := perform_ok_iff.mp h
    exact (Action.burstInRange_iff hnamed hf).mp (haction _ f rfl hf) op key set rate per burst rfl
  · subst ha
    refine (Action.burstInRange_iff hnamed hf).mpr fun op key set rate per burst ha ↦ ?_
    exact hm op key set rate per burst (ha ▸ hs)

/-- **Rate limits are in range but for the bursts of meters.**  Whatever calls are made, every limit
in the rule has a rate in range and a known unit, and one that is a statement of its own has a burst
in range, if any.  So all limits are in range if and only if no meter was given a burst out of
range. -/
theorem rate_limits_in_range (h : begin family = .ok e) (calls : List Call) :
    (∀ v ∈ (e.after (calls.map .call)).toList, ∀ l, v.HasLimit l → l.HasRate) ∧
      (∀ v ∈ (e.after (calls.map .call)).toList, ∀ l, v.get? "limit" = some l →
        l.BurstInRange) ∧
      ((∀ v ∈ (e.after (calls.map .call)).toList, ∀ l, v.HasLimit l →
          l.HasRate ∧ l.BurstInRange) ↔
        ∀ m ∈ e.accepted (calls.map .call), m.BurstInRange) := by
  refine ⟨hasRate_of_calls h, burstInRange_of_calls h, ?_⟩
  rw [← burstsInRange_iff h]
  constructor
  · exact fun hlimits v hv l hl ↦ (hlimits v hv l hl).2
  · exact fun hbursts v hv l hl ↦ ⟨hasRate_of_calls h v hv l hl, hbursts v hv l hl⟩

/-- A limit, a meter without a burst and one with the greatest burst, and a limit that is
refused. -/
def limitedCalls : List Call :=
  [⟨"limit", [.int 10, .str "Minute"], [("burst", .int 5), ("over", .bool true)]⟩,
    ⟨"meter_add", [.str "ip saddr", .str "seen", .int 0], [("burst", .null)]⟩,
    ⟨"meter_update", [.str "ip saddr", .str "flood", .int 10, .str "hour", .int 0xFFFFFFFF], []⟩,
    ⟨"limit", [.int 10], [("burst", .int (-1))]⟩]

/-- Three limits are written, all of them in range. -/
theorem rate_limits_in_range_limitedCalls :
    ∃ e, begin (.str "inet") = .ok e ∧
      (e.after (limitedCalls.map .call)).toList.length = 3 ∧
      ∀ v ∈ (e.after (limitedCalls.map .call)).toList, ∀ l, v.HasLimit l →
        l.HasRate ∧ l.BurstInRange := by
  have hbegin : begin (.str "inet") = .ok { family := .inet } := rfl
  refine ⟨_, hbegin, rfl, (rate_limits_in_range hbegin limitedCalls).2.2.mpr ?_⟩
  have haccepted : accepted { family := .inet } (limitedCalls.map .call) =
    (limitedCalls.take 3).map .call := rfl
  rw [haccepted]
  intro m hm op key set rate per burst hstep
  simp only [limitedCalls, List.take_succ_cons, List.take_zero, List.map_cons, List.map_nil,
    List.mem_cons, List.not_mem_nil, or_false] at hm
  obtain rfl | rfl | rfl := hm <;> cases hstep
  · exact .inl rfl
  · exact .inr ⟨0xFFFFFFFF, rfl, by decide, by decide⟩

/-- A meter with a burst below zero. -/
def negativeBurst : List Call :=
  [⟨"meter_update", [.str "ip saddr", .str "flood", .int 10], [("burst", .int (-1))]⟩]

/-- The meter is accepted, and its burst is written as it is. -/
theorem meter_burst_is_unchecked :
    ∃ e v l, begin (.str "inet") = .ok e ∧ v ∈ (e.after (negativeBurst.map .call)).toList ∧
      v.HasLimit l ∧ l.get? "burst" = some (.int (-1)) ∧ ¬ l.BurstInRange := by
  refine ⟨_, _, _, rfl, List.mem_singleton_self _, .inSet rfl rfl (List.mem_singleton_self _) rfl,
    rfl, fun h ↦ ?_⟩
  obtain ⟨n, hn, hlow, -⟩ := h _ rfl
  cases hn
  exact absurd hlow (by decide)

end Calls

end Expr
end Nftables
