import Mathlib.Data.List.Forall2
import Nftables.Expr
import Nftables.Proofs.Expr.Ports

/-!
# Ports keep their meaning

A value gives ports in one of five ways: a number, a progression by steps of one, a pair of bounds,
a list, or a collection without an order.  It is accepted if it gives ports, at least one and all of
them legal, and the term that goes out then stands for the same ports.
-/

namespace Nftables

/-! ## The ports of a value and of a term -/

def IsPort (n : Int) : Prop :=
  0 ≤ n ∧ n ≤ 65535

namespace Value

/-- What a value gives as a port.  A progression is without its upper bound, a pair with both, and
the items of a collection may be anything. -/
inductive Gives : Value → Value → Prop where
  | one {n : Int} : Gives (.int n) (.int n)
  | progression {a b n : Int} : a ≤ n → n < b → Gives (.range a b 1) (.int n)
  | pair {a b n : Int} : a ≤ n → n ≤ b → Gives (.tuple [.int a, .int b]) (.int n)
  | list {vs : List Value} {w : Value} : w ∈ vs → Gives (.list vs) w
  | set {vs : List Value} {w : Value} : w ∈ vs → Gives (.set vs) w

/-- A value gives ports: at least one, and nothing that is no port. -/
def GivesPorts (v : Value) : Prop :=
  (∃ w, v.Gives w) ∧ ∀ w, v.Gives w → ∃ n : Int, w = .int n ∧ IsPort n

/-- The ports that a term stands for on the wire, where both bounds of a range belong to it. -/
inductive StandsFor : Value → Int → Prop where
  | one {n : Int} : StandsFor (.int n) n
  | span {first last n : Int} : first ≤ n → n ≤ last →
      StandsFor (.object [("range", .list [.int first, .int last])]) n
  | several {ns : List Int} {n : Int} : n ∈ ns →
      StandsFor (.object [("set", .list (ns.map .int))]) n

/-- A term for ports: a port, a range that is not inverted, or several ports. -/
inductive IsPortTerm : Value → Prop where
  | one {n : Int} : IsPort n → IsPortTerm (.int n)
  | span {first last : Int} : IsPort first → IsPort last → first ≤ last →
      IsPortTerm (.object [("range", .list [.int first, .int last])])
  | several {ns : List Int} : ns ≠ [] → (∀ n ∈ ns, IsPort n) →
      IsPortTerm (.object [("set", .list (ns.map .int))])

/-- A term conveys what a value gives: the same ports, those of a collection without an order in
ascending order. -/
structure Conveys (t v : Value) : Prop where
  legal : t.IsPortTerm
  same : ∀ n, t.StandsFor n ↔ v.Gives (.int n)
  ascending : ∀ vs, v = .set vs → ∃ ns : List Int, t = .object [("set", .list (ns.map .int))] ∧
    ns.Pairwise (· ≤ ·)

end Value

/-! ## Reading ports -/

namespace Value

variable {vs ws : List Value} {ns : List Int}

theorem sort_perm (h : sort vs = .ok ws) : ws.Perm vs := by
  unfold sort at h
  split at h
  · cases h
    exact .refl _
  split at h
  · cases h
    exact List.mergeSort_perm _ _
  split at h
  · cases h
    exact List.mergeSort_perm _ _
  · cases h

theorem map_int_inj {ms ns : List Int} : ms.map int = ns.map int ↔ ms = ns :=
  List.map_inj_right fun _ _ ↦ int.inj

theorem mem_map_int {n : Int} : int n ∈ ns.map int ↔ n ∈ ns :=
  List.mem_map_of_injective fun _ _ ↦ int.inj

theorem exists_ints (h : ∀ v ∈ vs, ∃ n : Int, v = .int n) : ∃ ns : List Int, vs = ns.map .int := by
  induction vs with
  | nil => exact ⟨[], rfl⟩
  | cons v vs ih =>
    rw [List.forall_mem_cons] at h
    obtain ⟨n, rfl⟩ := h.1
    obtain ⟨ns, rfl⟩ := ih h.2
    exact ⟨n :: ns, rfl⟩

theorem exists_ports_iff :
    ((∃ v, v ∈ vs) ∧ ∀ v ∈ vs, ∃ n : Int, v = .int n ∧ IsPort n) ↔
      ∃ ns : List Int, vs = ns.map .int ∧ ns ≠ [] ∧ ∀ n ∈ ns, IsPort n := by
  constructor
  · rintro ⟨⟨v, hv⟩, hall⟩
    obtain ⟨ns, rfl⟩ := exists_ints fun v hv ↦ (hall v hv).imp fun _ ↦ And.left
    refine ⟨ns, rfl, ?_, fun n hn ↦ ?_⟩
    · rintro rfl
      cases hv
    · obtain ⟨_, ⟨⟩, hn⟩ := hall _ (List.mem_map_of_mem hn)
      exact hn
  · rintro ⟨ns, rfl, hne, hports⟩
    obtain ⟨n, hn⟩ := List.exists_mem_of_ne_nil ns hne
    exact ⟨⟨_, List.mem_map_of_mem hn⟩, List.forall_mem_map.mpr fun m hm ↦ ⟨m, rfl, hports m hm⟩⟩

theorem gives_list {w : Value} : (list vs).Gives w ↔ w ∈ vs :=
  ⟨fun h ↦ by cases h; assumption, .list⟩

theorem gives_set {w : Value} : (set vs).Gives w ↔ w ∈ vs :=
  ⟨fun h ↦ by cases h; assumption, .set⟩

theorem gives_progression {a b n : Int} : (range a b 1).Gives (.int n) ↔ a ≤ n ∧ n < b :=
  ⟨fun h ↦ by cases h; exact ⟨‹_›, ‹_›⟩, fun h ↦ .progression h.1 h.2⟩

theorem gives_pair {a b n : Int} : (tuple [.int a, .int b]).Gives (.int n) ↔ a ≤ n ∧ n ≤ b :=
  ⟨fun h ↦ by cases h; exact ⟨‹_›, ‹_›⟩, fun h ↦ .pair h.1 h.2⟩

theorem standsFor_range {a b n : Int} :
    (Term.range (.int a) (.int b)).StandsFor n ↔ a ≤ n ∧ n ≤ b := by
  refine ⟨fun h ↦ ?_, fun h ↦ .span h.1 h.2⟩
  generalize ht : Term.range (.int a) (.int b) = t at h
  cases h <;> simp_all [Term.range, Term.single]

theorem standsFor_set {n : Int} : (Term.anonymousSet (ns.map .int)).StandsFor n ↔ n ∈ ns := by
  refine ⟨fun h ↦ ?_, .several⟩
  generalize ht : Term.anonymousSet (ns.map .int) = t at h
  cases h <;> simp_all [Term.anonymousSet, Term.single, map_int_inj]

theorem givesPorts_list :
    (list vs).GivesPorts ↔ ∃ ns : List Int, vs = ns.map .int ∧ ns ≠ [] ∧ ∀ n ∈ ns, IsPort n := by
  simp only [GivesPorts, gives_list, exists_ports_iff]

theorem givesPorts_set :
    (set vs).GivesPorts ↔ ∃ ns : List Int, vs = ns.map .int ∧ ns ≠ [] ∧ ∀ n ∈ ns, IsPort n := by
  simp only [GivesPorts, gives_set, exists_ports_iff]

/-- Integers can be sorted, and are in ascending order then. -/
theorem sort_ints (ns : List Int) :
    ∃ ms : List Int, sort (ns.map .int) = .ok (ms.map .int) ∧ ms.Perm ns ∧ ms.Pairwise (· ≤ ·) := by
  unfold sort
  split
  case isTrue h =>
    rw [List.length_map] at h
    refine ⟨ns, rfl, .refl _, ?_⟩
    match ns, h with
    | [], _ => exact .nil
    | [n], _ => exact List.pairwise_singleton _ n
  case isFalse =>
    have hnumbers : (ns.map Value.int).all (fun v ↦ v.number?.isSome) = true := by
      simp [number?]
    refine ⟨ns.mergeSort (· ≤ ·), ?_, List.mergeSort_perm _ _, ?_⟩
    · rw [if_pos hnumbers, List.map_mergeSort]
      simp only [number?, Option.getD_some, Rat.intCast_le_intCast, implies_true]
    · have h := @List.pairwise_mergeSort Int (· ≤ ·)
        (fun a b c ↦ by simpa using Int.le_trans) (fun a b ↦ by simpa using Int.le_total a b) ns
      simpa using h

/-- Values that are integers when they are sorted are the same integers in ascending order. -/
theorem sort_eq_ints_iff {ms : List Int} :
    sort vs = .ok (ms.map .int) ↔
      ∃ ns : List Int, vs = ns.map .int ∧ ms.Perm ns ∧ ms.Pairwise (· ≤ ·) := by
  constructor
  · intro h
    obtain ⟨ns, rfl⟩ : ∃ ns : List Int, vs = ns.map .int := by
      refine exists_ints fun v hv ↦ ?_
      obtain ⟨n, -, rfl⟩ := List.mem_map.mp ((sort_perm h).mem_iff.mpr hv)
      exact ⟨n, rfl⟩
    obtain ⟨ms', hsort, hperm, hle⟩ := sort_ints ns
    obtain rfl : ms' = ms := map_int_inj.mp (Except.ok.inj (hsort.symm.trans h))
    exact ⟨ns, rfl, hperm, hle⟩
  · rintro ⟨ns, rfl, hperm, hle⟩
    -- there is only one ascending order
    obtain ⟨ms', hsort, hperm', hle'⟩ := sort_ints ns
    obtain rfl : ms' = ms := (hperm'.trans hperm.symm).eq_of_pairwise
      (fun _ _ _ _ ↦ Int.le_antisymm) hle' hle
    exact hsort

end Value

namespace Ports

open Value (gives_list gives_set gives_progression gives_pair standsFor_range standsFor_set
  mem_map_int)

variable {v : Value} {vs : List Value} {ps : Ports} {a b : Int} {ns : List Int}

/-- What a value is read as, case by case. -/
inductive ReadAs : Value → Ports → Prop where
  | one {n : Int} : IsPort n → ReadAs (.int n) (.one n)
  | progression {a b : Int} : IsPort a → IsPort (b - 1) → a < b →
      ReadAs (.range a b 1) (.span a (b - 1))
  | pair {a b : Int} : IsPort a → IsPort b → a ≤ b → ReadAs (.tuple [.int a, .int b]) (.span a b)
  | list {ns : List Int} : ns ≠ [] → (∀ n ∈ ns, IsPort n) →
      ReadAs (.list (ns.map .int)) (.several ns)
  | set {ms ns : List Int} : ns ≠ [] → (∀ n ∈ ns, IsPort n) → ms.Perm ns → ms.Pairwise (· ≤ ·) →
      ReadAs (.set (ns.map .int)) (.several ms)

theorem mapM_port_ok_iff :
    vs.mapM port = .ok ns ↔ vs = ns.map .int ∧ ∀ n ∈ ns, IsPort n := by
  rw [mapM_ok_iff]
  constructor
  · intro h
    induction h with
    | nil => simp
    | cons hport _ ih =>
      obtain ⟨rfl, hn⟩ := port_ok_iff.mp hport
      obtain ⟨rfl, hns⟩ := ih
      exact ⟨rfl, List.forall_mem_cons.mpr ⟨hn, hns⟩⟩
  · rintro ⟨rfl, hns⟩
    rw [List.forall₂_map_left_iff, List.forall₂_same]
    exact fun n hn ↦ port_ok_iff.mpr ⟨rfl, hns n hn⟩

theorem ofList_ok_iff :
    ofList vs = .ok ps ↔
      ∃ ns : List Int, vs = ns.map .int ∧ ns ≠ [] ∧ (∀ n ∈ ns, IsPort n) ∧ .several ns = ps := by
  unfold ofList
  split
  case isTrue h =>
    rw [List.isEmpty_iff] at h
    simp only [reduceCtorEq, false_iff]
    rintro ⟨ns, hvs, hns, -⟩
    exact hns (List.map_eq_nil_iff.mp (hvs.symm.trans h))
  case isFalse h =>
    rw [List.isEmpty_iff] at h
    simp only [map_ok_iff, mapM_port_ok_iff]
    constructor
    · rintro ⟨ns, ⟨rfl, hports⟩, rfl⟩
      exact ⟨ns, rfl, mt List.map_eq_nil_iff.mpr h, hports, rfl⟩
    · rintro ⟨ns, rfl, -, hports, rfl⟩
      exact ⟨ns, ⟨rfl, hports⟩, rfl⟩

theorem rangeSize_one : rangeSize a b 1 = 0 ↔ b ≤ a := by
  simp only [rangeSize, Int.zero_lt_one, if_true, Int.ediv_one]
  omega

theorem readAs_of_ofValue (h : ofValue v = .ok ps) : ReadAs v ps := by
  cases v with
  | range a b step =>
    simp only [ofValue] at h
    split at h
    · simp at h
    case isFalse hstep =>
    obtain ⟨rfl, hsize⟩ : step = 1 ∧ rangeSize a b step ≠ 0 := by simpa using hstep
    rw [Ne, rangeSize_one, Int.not_le] at hsize
    simp only [bind_ok_iff, liftM_argument_ok_iff, pure_ok_iff, port_ok_iff,
      Value.int.injEq] at h
    obtain ⟨_, ⟨rfl, ha⟩, _, ⟨rfl, hb⟩, rfl⟩ := h
    exact .progression ha hb hsize
  | tuple ws =>
    rcases ws with _ | ⟨v, _ | ⟨w, _ | _⟩⟩
    case cons.cons.nil =>
      simp only [ofValue, bind_ok_iff, liftM_argument_ok_iff, port_ok_iff] at h
      obtain ⟨first, ⟨rfl, ha⟩, last, ⟨rfl, hb⟩, h⟩ := h
      split at h
      · simp at h
      case isFalse hle =>
      cases pure_ok_iff.mp h
      exact .pair ha hb (Int.not_lt.mp hle)
    all_goals simp [ofValue] at h
  | list ws =>
    simp only [ofValue, liftM_argument_ok_iff, ofList_ok_iff] at h
    obtain ⟨ns, rfl, hns, hports, rfl⟩ := h
    exact .list hns hports
  | set ws =>
    simp only [ofValue, bind_ok_iff, liftM_argument_ok_iff, liftM_shape_ok_iff,
      ofList_ok_iff] at h
    obtain ⟨_, hsort, ms, rfl, hne, hports, rfl⟩ := h
    obtain ⟨ns, rfl, hperm, hle⟩ := Value.sort_eq_ints_iff.mp hsort
    refine .set (fun hns ↦ hne ?_) (fun n hn ↦ hports n (hperm.mem_iff.mpr hn)) hperm hle
    exact (hns ▸ hperm).eq_nil
  | int n =>
    simp only [ofValue, bind_ok_iff, liftM_argument_ok_iff, pure_ok_iff, port_ok_iff,
      Value.int.injEq] at h
    obtain ⟨_, ⟨rfl, hn⟩, rfl⟩ := h
    exact .one hn
  | _ => simp [ofValue, port_ok_iff] at h

theorem ofValue_of_readAs (h : ReadAs v ps) : ofValue v = .ok ps := by
  cases h with
  | one hn =>
    simp only [ofValue, bind_ok_iff, liftM_argument_ok_iff, pure_ok_iff, port_ok_iff]
    exact ⟨_, ⟨rfl, hn⟩, rfl⟩
  | progression ha hb hlt =>
    have hsize := mt rangeSize_one.mp (Int.not_le.mpr hlt)
    simp only [ofValue, ne_eq, not_true_eq_false, hsize, or_self, if_false, bind_ok_iff,
      liftM_argument_ok_iff, pure_ok_iff, port_ok_iff]
    exact ⟨_, ⟨rfl, ha⟩, _, ⟨rfl, hb⟩, rfl⟩
  | pair ha hb hle =>
    simp only [ofValue, bind_ok_iff, liftM_argument_ok_iff, port_ok_iff]
    refine ⟨_, ⟨rfl, ha⟩, _, ⟨rfl, hb⟩, ?_⟩
    rw [if_neg (Int.not_lt.mpr hle), pure_ok_iff]
  | list hne hports =>
    simp only [ofValue, liftM_argument_ok_iff, ofList_ok_iff]
    exact ⟨_, rfl, hne, hports, rfl⟩
  | @set ms ns hne hports hperm hle =>
    have hsort := Value.sort_eq_ints_iff.mpr ⟨ns, rfl, hperm, hle⟩
    simp only [ofValue, bind_ok_iff, liftM_argument_ok_iff, liftM_shape_ok_iff, ofList_ok_iff]
    refine ⟨_, hsort, ms, rfl, fun hms ↦ hne ?_, fun n hn ↦ hports n (hperm.mem_iff.mp hn), rfl⟩
    exact (hms ▸ hperm).symm.eq_nil

/-- A value is read as ports if it gives ports. -/
theorem exists_readAs_iff : (∃ ps, ReadAs v ps) ↔ v.GivesPorts := by
  constructor
  · rintro ⟨ps, h⟩
    cases h with
    | one hn =>
      refine ⟨⟨_, .one⟩, fun _ h ↦ ?_⟩
      cases h
      exact ⟨_, rfl, hn⟩
    | progression ha hb hlt =>
      refine ⟨⟨_, .progression (Int.le_refl _) hlt⟩, fun _ h ↦ ?_⟩
      obtain _ | ⟨han, hnb⟩ := h
      exact ⟨_, rfl, Int.le_trans ha.1 han, Int.le_trans (Int.le_sub_one_of_lt hnb) hb.2⟩
    | pair ha hb hle =>
      refine ⟨⟨_, .pair (Int.le_refl _) hle⟩, fun _ h ↦ ?_⟩
      obtain _ | _ | ⟨han, hnb⟩ := h
      exact ⟨_, rfl, Int.le_trans ha.1 han, Int.le_trans hnb hb.2⟩
    | list hne hports => exact Value.givesPorts_list.mpr ⟨_, rfl, hne, hports⟩
    | set hne hports => exact Value.givesPorts_set.mpr ⟨_, rfl, hne, hports⟩
  · rintro ⟨⟨w, hw⟩, hall⟩
    have hport {n : Int} (hn : v.Gives (.int n)) : IsPort n := by
      obtain ⟨_, ⟨⟩, hn⟩ := hall _ hn
      exact hn
    cases hw with
    | one => exact ⟨_, .one (hport .one)⟩
    | @progression a b n han hnb =>
      have hlt : a < b := Int.lt_of_le_of_lt han hnb
      exact ⟨_, .progression (hport (.progression (Int.le_refl a) hlt))
        (hport (.progression (Int.le_sub_one_of_lt hlt) (Int.sub_one_lt_of_le (Int.le_refl b))))
        hlt⟩
    | @pair a b n han hnb =>
      have hle : a ≤ b := Int.le_trans han hnb
      exact ⟨_, .pair (hport (.pair (Int.le_refl a) hle)) (hport (.pair hle (Int.le_refl b))) hle⟩
    | list hw =>
      obtain ⟨ns, rfl, hne, hports⟩ := Value.givesPorts_list.mp ⟨⟨w, .list hw⟩, hall⟩
      exact ⟨_, .list hne hports⟩
    | set hw =>
      obtain ⟨ns, rfl, hne, hports⟩ := Value.givesPorts_set.mp ⟨⟨w, .set hw⟩, hall⟩
      obtain ⟨ms, -, hperm, hle⟩ := Value.sort_ints ns
      exact ⟨_, .set hne hports hperm hle⟩

theorem exists_ofValue_ok_iff : (∃ ps, ofValue v = .ok ps) ↔ v.GivesPorts :=
  (exists_congr fun _ ↦ ⟨readAs_of_ofValue, ofValue_of_readAs⟩).trans exists_readAs_iff

/-- The term for the ports that a value is read as is legal. -/
theorem ReadAs.isPortTerm (h : ReadAs v ps) : ps.term.IsPortTerm := by
  cases h with
  | one hn => exact .one hn
  | progression ha hb hlt => exact .span ha hb (Int.le_sub_one_of_lt hlt)
  | pair ha hb hle => exact .span ha hb hle
  | list hne hports => exact .several hne hports
  | set hne hports hperm =>
    exact .several (fun h ↦ hne (h ▸ hperm).symm.eq_nil) fun n hn ↦ hports n (hperm.mem_iff.mp hn)

/-- The term for the ports that a value is read as stands for the ports that the value gives. -/
theorem ReadAs.standsFor_iff (h : ReadAs v ps) (n : Int) :
    ps.term.StandsFor n ↔ v.Gives (.int n) := by
  cases h with
  | one =>
    constructor
    · intro h
      cases h
      exact .one
    · intro h
      cases h
      exact .one
  | progression => rw [term, standsFor_range, gives_progression, Int.le_sub_one_iff]
  | pair => rw [term, standsFor_range, gives_pair]
  | list => rw [term, standsFor_set, gives_list, mem_map_int]
  | set _ _ hperm => rw [term, standsFor_set, gives_set, mem_map_int, hperm.mem_iff]

theorem ReadAs.term_conveys (h : ReadAs v ps) : ps.term.Conveys v where
  legal := h.isPortTerm
  same := h.standsFor_iff
  ascending vs hv := by
    subst hv
    cases h with
    | set _ _ _ hle => exact ⟨_, rfl, hle⟩

end Ports

/-! ## Matches and translations -/

/-- What ports are given for: a match on one side, a translation of addresses, or a redirection. -/
inductive PortUse where
  | condition (side : Endpoint) (negated : Bool)
  | translation (kind : String) (address : Value)
  | redirection

namespace PortUse

/-- The step by which ports are given for a use. -/
def step (v : Value) : PortUse → Expr.Step
  | condition side negated => .condition (.port side v negated)
  | translation kind address => .action (.translate kind address v)
  | redirection => .action (.redirect v)

/-- A match on ports needs an open expression that is about a protocol with ports; a translation can
stand in any expression. -/
def Admitted (e : Expr) : PortUse → Prop
  | condition .. => e.closed = false ∧ ∃ p ∈ Fragment.portCarriers, e.protocol = some p
  | translation .. | redirection => True

/-- The term for the ports in a fragment that has them on its right, or as an entry. -/
def term? (f : Fragment) : PortUse → Option Value
  | condition .. => f.side? "right"
  | translation .. | redirection => f.value.get? "port"

end PortUse

namespace Expr

variable {e e' : Expr} {v : Value} {u : PortUse}

/-- The entry for ports of an address translation is there if ports are given. -/
theorem get?_nat_port (kind : String) (address : Value) :
    (Fragment.nat kind address v .null).value.get? "port" = if v.isNull then none else some v := by
  have hfamily : Value.isNull .null = true := rfl
  cases ha : address.isNull <;> cases hv : v.isNull <;>
    simp [Fragment.nat, Fragment.statement, Fragment.given, Fragment.orNothing, ha, hv,
      Value.get?, Value.lookup]

theorem isNull_term (ps : Ports) : ps.term.isNull = false := by
  cases ps <;> rfl

/-- What ports are given for succeeds, where it is admitted, if they are read. -/
theorem exists_apply_port_iff (hu : u.Admitted e) (hv : v ≠ .null) :
    (∃ e', e.apply (u.step v) = .ok e') ↔ ∃ ps, Ports.ofValue v = .ok ps := by
  cases u with
  | condition side negated =>
    obtain ⟨hopen, p, hp, hprotocol⟩ := hu
    have hheader := Condition.portProtocol_of_mem side.portField hp
    simp [PortUse.step, apply, require_ok_iff, Condition.fragment, hopen, hprotocol, hheader]
  | translation kind address =>
    have hnull : v.isNull = false := by rwa [← Bool.not_eq_true, Value.isNull_eq_true_iff]
    simp [PortUse.step, apply, perform_ok_iff, Action.fragment, Action.ports, hnull]
  | redirection => simp [PortUse.step, apply, perform_ok_iff, Action.fragment]

/-- What goes out are the ports that have been read, or none if none are given. -/
theorem term?_of_apply_port (h : e.apply (u.step v) = .ok e') :
    ∃ f, e' = e.push f ∧ (v = .null ∧ u.term? f = none ∨
      ∃ ps, Ports.ofValue v = .ok ps ∧ u.term? f = some ps.term) := by
  cases u with
  | condition side negated =>
    obtain ⟨f, hf, -, rfl⟩ := require_ok_iff.mp h
    simp only [Condition.fragment, bind_ok_iff, liftM_context_ok_iff, pure_ok_iff] at hf
    obtain ⟨header, -, ps, hps, rfl⟩ := hf
    exact ⟨_, rfl, .inr ⟨ps, hps, rfl⟩⟩
  | translation kind address =>
    obtain ⟨f, hf, rfl⟩ := perform_ok_iff.mp h
    simp only [Action.fragment, Action.ports, bind_ok_iff, pure_ok_iff] at hf
    obtain ⟨t, ht, rfl⟩ := hf
    refine ⟨_, rfl, ?_⟩
    rw [PortUse.term?, get?_nat_port]
    split at ht
    case isTrue hnull =>
      cases ht
      exact .inl ⟨Value.isNull_eq_true_iff.mp hnull, rfl⟩
    case isFalse =>
      obtain ⟨ps, hps, rfl⟩ := map_ok_iff.mp ht
      exact .inr ⟨ps, hps, by rw [isNull_term]; rfl⟩
  | redirection =>
    obtain ⟨f, hf, rfl⟩ := perform_ok_iff.mp h
    simp only [Action.fragment, bind_ok_iff, pure_ok_iff] at hf
    obtain ⟨ps, hps, rfl⟩ := hf
    refine ⟨_, rfl, .inr ⟨ps, hps, ?_⟩⟩
    rw [PortUse.term?, get?_nat_port, isNull_term]
    rfl

/-- **Ports keep their meaning.**  Ports can be given, wherever that is admitted, as any value that
gives ports and as no other, and what goes out conveys what has been given. -/
theorem ports_keep_meaning (u : PortUse) (e : Expr) (v : Value) :
    (u.Admitted e → v ≠ .null → ((∃ e', e.apply (u.step v) = .ok e') ↔ v.GivesPorts)) ∧
      ∀ e', e.apply (u.step v) = .ok e' → ∃ f, e' = e.push f ∧
        (v = .null ∧ u.term? f = none ∨ ∃ t, u.term? f = some t ∧ t.Conveys v) := by
  refine ⟨fun hu hv ↦ (exists_apply_port_iff hu hv).trans Ports.exists_ofValue_ok_iff,
    fun e' h ↦ ?_⟩
  obtain ⟨f, hf, hnull | ⟨ps, hps, hterm⟩⟩ := term?_of_apply_port h
  · exact ⟨f, hf, .inl hnull⟩
  · exact ⟨f, hf, .inr ⟨ps.term, hterm, (Ports.readAs_of_ofValue hps).term_conveys⟩⟩

/-- A match on two ports that are given without an order. -/
theorem ports_keep_meaning_unordered :
    (PortUse.condition .source false).Admitted { family := .ip, protocol := some .tcp } ∧
      Value.set [.int 443, .int 80] ≠ .null ∧
      ∃ e', Expr.apply { family := .ip, protocol := some .tcp }
        ((PortUse.condition .source false).step (.set [.int 443, .int 80])) = .ok e' := by
  have hu : (PortUse.condition .source false).Admitted { family := .ip, protocol := some .tcp } :=
    ⟨rfl, .tcp, by decide, rfl⟩
  have hv : Value.set [.int 443, .int 80] ≠ .null := nofun
  have hports : (Value.set [.int 443, .int 80]).GivesPorts :=
    Value.givesPorts_set.mpr ⟨[443, 80], rfl, by decide, by simp [IsPort]⟩
  exact ⟨hu, hv, ((ports_keep_meaning _ _ _).1 hu hv).mpr hports⟩

end Expr
end Nftables
