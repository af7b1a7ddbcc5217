import Nftables.Proofs.Spec.Details

/-!
# Refused details

A detail that should name a word and names none is refused.  All that is checked before it is an
argument too, once the object has an identity; so the error says that an argument is wrong.
-/

namespace Nftables

/-- Checks that end with the refusal of an argument. -/
def Refuses {α : Type} (x : Except BuildError α) : Prop :=
  ∃ e, x = .error (.argument e)

namespace Refuses

variable {α β : Type} {x : Except BuildError α} {f : α → Except BuildError β}

theorem bind_left (h : Refuses x) : Refuses (x >>= f) := by
  obtain ⟨e, rfl⟩ := h
  exact ⟨e, rfl⟩

theorem bind {a : α} (hx : x = .ok a) (h : Refuses (f a)) : Refuses (x >>= f) := by
  subst hx
  exact h

/-- A check of an argument refuses it, or else the checks go on. -/
theorem check {y : Except ArgumentError α} (h : ∀ a, y = .ok a → Refuses (f a)) :
    Refuses (liftM y >>= f) := by
  cases y with
  | error e => exact ⟨e, rfl⟩
  | ok a => exact h a rfl

theorem map {g : α → β} (h : Refuses x) : Refuses (g <$> x) := by
  obtain ⟨e, rfl⟩ := h
  exact ⟨e, rfl⟩

end Refuses

section Misnamed

variable {c : Context} {as : Attributes} {n : String} {d : Detail}

theorem ChainSpec.refuses_baseAttributes {s : ChainSpec} (hd : d ∈ s.details) (hgiven : d.Given)
    (hmisnamed : d.Misnamed) (hdrops : ¬ s.Drops d.key) : Refuses s.baseAttributes := by
  refine .check fun type htype ↦ .check fun _ hrequire ↦ .check fun hook hhook ↦ .check fun _ _ ↦
    .check fun policy hpolicy ↦ False.elim ?_
  simp only [details, List.mem_cons, List.not_mem_nil, or_false] at hd
  rcases hd with rfl | rfl | rfl | rfl | rfl
  · have hempty : s.type.givenEmpty = false := by simpa [Drops] using hdrops
    rw [Value.orElse_of_given hgiven hempty] at htype
    exact not_misnames_of_wordAttribute htype hmisnamed
  · obtain ⟨-, rfl⟩ := Value.require_ok_iff.mp hrequire
    exact not_misnames_of_wordAttribute hhook hmisnamed
  · exact hmisnamed
  · rcases optionalAttribute_ok_iff.mp hpolicy with ⟨hnull, -⟩ | ⟨-, w, hw, -⟩
    · exact hgiven hnull
    · exact not_misnames_of_wordAttribute hw hmisnamed
  · exact hmisnamed

theorem ChainSpec.refuses_attributes {s : ChainSpec} (hscope : scope c (.chain s) = .ok as)
    (hn : c.chainName s = .ok n) (hd : d ∈ s.details) (hgiven : d.Given) (hmisnamed : d.Misnamed)
    (hdrops : ¬ s.Drops d.key) : Refuses (s.attributes .add c) := by
  have hbase : s.isBase = true := by
    by_contra hbase
    exact hdrops (drops_of_given (by simpa using hbase) hd hgiven)
  refine .bind hscope (.bind hn ?_)
  rw [if_neg (by decide), if_pos ⟨rfl, hbase⟩]
  exact .bind_left (refuses_baseAttributes hd hgiven hmisnamed hdrops)

theorem CollectionOptions.refuses_attributes {o : CollectionOptions} (hd : d ∈ o.details)
    (hgiven : d.Given) (hmisnamed : d.Misnamed) : Refuses o.attributes := by
  simp only [details, List.mem_cons, List.not_mem_nil, or_false] at hd
  rcases hd with rfl | rfl | rfl | rfl
  · have hgiven : o.flags.truthy = true := hgiven
    obtain ⟨vs, hvs, v, hv, hmisnames⟩ := hmisnamed
    refine .bind_left ?_
    rw [flagsAttribute, if_pos hgiven]
    refine .bind (liftM_shape_ok_iff.mpr hvs) (.check fun ws hws ↦ False.elim ?_)
    obtain ⟨w, -, hw⟩ := exists_ok_of_mem hws hv
    exact not_misnames_of_wordAttribute hw hmisnames
  all_goals exact hmisnamed.elim

theorem SetSpec.refuses_attributes {s : SetSpec} (hscope : scope c (.set s) = .ok as)
    (hn : c.setName s.name = .ok n) (hd : d ∈ (Spec.set s).details) (hgiven : d.Given)
    (hmisnamed : d.Misnamed) : Refuses (s.attributes .add c) := by
  refine .bind hscope (.bind hn ?_)
  rw [if_pos rfl]
  refine .check fun _ _ ↦ .check fun _ _ ↦ .bind_left ?_
  rcases List.mem_cons.mp hd with rfl | hd
  · exact hmisnamed.elim
  · exact CollectionOptions.refuses_attributes hd hgiven hmisnamed

theorem MapSpec.refuses_attributes {s : MapSpec} (hscope : scope c (.map s) = .ok as)
    (hn : c.mapName s.name = .ok n) (hd : d ∈ (Spec.map s).details) (hgiven : d.Given)
    (hmisnamed : d.Misnamed) : Refuses (s.attributes .add c) := by
  refine .bind hscope (.bind hn ?_)
  rw [if_pos rfl]
  refine .check fun _ _ ↦ .check fun _ _ ↦ .check fun _ _ ↦ .check fun _ _ ↦ .bind_left ?_
  rcases List.mem_cons.mp hd with rfl | hd
  · exact hmisnamed.elim
  rcases List.mem_cons.mp hd with rfl | hd
  · exact hmisnamed.elim
  · exact CollectionOptions.refuses_attributes hd hgiven hmisnamed

theorem LimitSpec.refuses_attributes {s : LimitSpec} (hscope : scope c (.limit s) = .ok as)
    (hn : c.nameOf (.limit s) = .ok n) (hd : d ∈ (Spec.limit s).details)
    (hmisnamed : d.Misnamed) : Refuses (s.attributes .add c) := by
  refine .bind hscope (.bind hn ?_)
  rw [if_pos rfl]
  refine .check fun _ _ ↦ .check fun _ _ ↦ .check fun _ hrequire ↦ .check fun per hper ↦
    False.elim ?_
  simp only [Spec.details, List.mem_cons, List.not_mem_nil, or_false] at hd
  rcases hd with rfl | rfl | rfl
  · exact hmisnamed
  · obtain ⟨-, rfl⟩ := Value.require_ok_iff.mp hrequire
    exact not_misnames_of_wordAttribute hper hmisnamed
  · exact hmisnamed

theorem FlowtableSpec.refuses_attributes {s : FlowtableSpec}
    (hscope : scope c (.flowtable s) = .ok as)
    (hn : c.nameOf (.flowtable s) = .ok n) (hd : d ∈ s.details) (hmisnamed : d.Misnamed) :
    Refuses (s.attributes .add c) := by
  refine .bind hscope (.bind hn ?_)
  rw [if_pos rfl]
  refine .bind_left (.check fun hook hhook ↦ False.elim ?_)
  simp only [details, List.mem_cons, List.not_mem_nil, or_false] at hd
  rcases hd with rfl | rfl | rfl | rfl
  · exact hmisnamed _ (names_of_hookValue hhook)
  · exact hmisnamed
  · exact hmisnamed
  · obtain ⟨_, -, _, -, hfalse⟩ := hmisnamed
    exact hfalse

/-- A given name that stands for no word is refused when an object with an identity is added. -/
theorem Spec.refuses_attributes {s : Spec} (hscope : scope c s = .ok as)
    (hn : c.nameOf s = .ok n) (hd : d ∈ s.details) (hgiven : d.Given) (hmisnamed : d.Misnamed)
    (hdrops : ¬ s.Drops d.key) : Refuses (s.attributes .add c) := by
  cases s with
  | ruleset | table | rule | element => cases hd
  | chain s => exact .map (ChainSpec.refuses_attributes hscope hn hd hgiven hmisnamed hdrops)
  | set s => exact .map (SetSpec.refuses_attributes hscope hn hd hgiven hmisnamed)
  | map s => exact .map (MapSpec.refuses_attributes hscope hn hd hgiven hmisnamed)
  | limit s => exact .map (LimitSpec.refuses_attributes hscope hn hd hmisnamed)
  | flowtable s => exact .map (FlowtableSpec.refuses_attributes hscope hn hd hmisnamed)
  | counter s | quota s =>
    simp only [details, List.mem_cons, List.not_mem_nil, or_false] at hd
    rcases hd with rfl | rfl | rfl <;> exact hmisnamed.elim

end Misnamed
end Nftables
