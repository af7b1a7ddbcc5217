import Nftables.Expr.Action
import Nftables.Expr.Condition
import Nftables.Proofs.Success
import Nftables.Proofs.Value.Plain

/-!
# Plain fragments

Terms are built of lists and objects alone, whatever collections the arguments of a condition or an
action are.  So a fragment is plain if what it takes over as it is given is.
-/

namespace Nftables

/-! ## Conditions and actions -/

/-- What a condition takes over as it is given is plain. -/
def Condition.Plain : Condition → Prop
  | .interface _ name _ => name.Plain
  | .openField _ v | .fingerprint _ v _ | .raw _ _ _ v _ => v.Plain
  | .rawMasked _ _ _ mask v => mask.Plain ∧ v.Plain
  | _ => True

/-- What an action takes over as it is given is plain. -/
def Action.Plain : Action → Prop
  | .counter name => name.Plain
  | .log label _ _ => label.Plain
  | .setCt _ v => v.Plain
  | .translate _ address _ => address.Plain
  | .meter _ key _ _ _ burst => key.Plain ∧ burst.Plain
  | .verdict _ target => target.Plain
  | .dup device address => device.Plain ∧ address.Plain
  | .tproxy _ address _ => address.Plain
  | _ => True

/-! ## Terms -/

section Terms

variable {v w : Value}

@[simp] theorem Term.plain_single {key : String} : (Term.single key v).Plain ↔ v.Plain := by
  simp [Term.single]

@[simp] theorem Term.plain_payload {header : String} :
    (Term.payload header v).Plain ↔ v.Plain := by
  simp [Term.payload]

@[simp] theorem Term.plain_metaKey : (Term.metaKey v).Plain ↔ v.Plain := by
  simp [Term.metaKey]

@[simp] theorem Term.plain_ct {direction : Option String} :
    (Term.ct v direction).Plain ↔ v.Plain := by
  cases direction <;> simp [Term.ct]

@[simp] theorem Term.plain_bitAnd : (Term.bitAnd v w).Plain ↔ v.Plain ∧ w.Plain := by
  simp [Term.bitAnd]

@[simp] theorem Fragment.plain_condition {relation : String} :
    (Fragment.condition v w relation).value.Plain ↔ v.Plain ∧ w.Plain := by
  simp [Fragment.condition]

@[simp] theorem OpenField.plain_term (f : OpenField) : f.term.Plain := by
  cases f <;> simp [term]

@[simp] theorem NumberField.plain_term (f : NumberField) : f.term.Plain := by
  cases f <;> simp [term]

@[simp] theorem NumberTarget.plain_term (t : NumberTarget) : t.term.Plain := by
  cases t <;> simp [term]

@[simp] theorem Ports.plain_term (ps : Ports) : ps.term.Plain := by
  cases ps <;> simp [term, Term.range, Term.anonymousSet]

@[simp] theorem Condition.plain_addressTerm (l : AddressLiteral) : (addressTerm l).Plain := by
  unfold addressTerm
  split <;> simp [Term.addressBlock]

end Terms

/-! ## What names stand for -/

section Names

variable {v w : Value}

/-- A table of plain values has no others to give. -/
theorem SymbolTable.plain_resolve {entries : List (String × Value)} {max : Option Nat}
    {what : String} (hentries : ∀ e ∈ entries, e.2.Plain)
    (h : (ofEntries entries max).resolve what v = .ok w) : w.Plain := by
  unfold resolve at h
  split at h
  case h_1 n =>
    split at h
    case h_1 a ha =>
      cases h
      simp only [ofEntries] at ha
      split at ha
      · split at ha
        · cases ha
          exact .int n
        · cases ha
      · cases ha
    case h_2 => cases h
  case h_2 s =>
    split at h
    case h_1 a ha =>
      cases h
      unfold find? at ha
      split at ha
      case h_1 e he =>
        cases ha
        exact hentries e (List.mem_of_find?_eq_some he)
      case h_2 =>
        simp only [ofEntries] at ha
        split at ha
        · cases ha
          exact .str s
        · cases ha
    case h_2 => cases h
  case h_3 => cases h

theorem plain_resolveDscp (h : resolveDscp v = .ok w) : w.Plain :=
  SymbolTable.plain_resolve (by simp [dscpClasses]) h

theorem plain_resolveIcmpType (h : resolveIcmpType v = .ok w) : w.Plain :=
  SymbolTable.plain_resolve (by simp [icmpTypes]) h

theorem plain_resolveIcmpv6Type (h : resolveIcmpv6Type v = .ok w) : w.Plain :=
  SymbolTable.plain_resolve (by simp [icmpv6Types]) h

theorem plain_resolveArpOperation (h : resolveArpOperation v = .ok w) : w.Plain :=
  SymbolTable.plain_resolve (by simp [arpOperations]) h

theorem Condition.plain_words {α : Type} [Vocabulary α] {what : String} {ws : List Value}
    (h : words α what v = .ok ws) : ∀ w ∈ ws, w.Plain := by
  intro w hw
  obtain ⟨u, -, hu⟩ := exists_mem_of_mapM_ok h hw
  obtain ⟨a, -, h⟩ := bind_ok_iff.mp hu
  cases h
  exact .str _

theorem Term.plain_setRef? (h : Term.setRef? v = .ok w) : w.Plain := by
  cases v with
  | str s =>
    cases h
    exact .str _
  | _ => cases h

end Names

/-! ## Fragments -/

theorem Condition.plain_rawTerm {base offset size w : Value} (h : rawTerm base offset size = .ok w) :
    w.Plain := by
  simp only [rawTerm, bind_ok_iff, Except.ok.injEq] at h
  obtain ⟨_, -, _, -, _, -, rfl⟩ := h
  simp [Term.rawPayload]

theorem Condition.plain_setField {family : Family} {protocol : Option Protocol} {field w : Value}
    (h : setField family protocol field = .ok w) : w.Plain := by
  unfold setField at h
  split at h
  · cases h
    simp
  · cases h
    simp
  · obtain ⟨_, -, h⟩ := bind_ok_iff.mp h
    cases h
    simp
  · obtain ⟨_, -, h⟩ := bind_ok_iff.mp h
    cases h
    simp
  · cases h

theorem Condition.Plain.fragment {c : Condition} {family : Family} {protocol : Option Protocol}
    {f : Fragment} (hc : c.Plain) (h : c.fragment family protocol = .ok f) : f.value.Plain := by
  cases c
  all_goals
    simp only [Condition.fragment, bind_ok_iff, pure_ok_iff, liftM_argument_ok_iff,
      liftM_shape_ok_iff] at h
  case interface | openField =>
    subst h
    simpa [Condition.Plain] using hc
  case fragmented | transparent =>
    subst h
    simp [Term.socket]
  case address | port | number | length =>
    obtain ⟨_, -, _, -, rfl⟩ := h
    simp
  case dscp =>
    obtain ⟨w, hw, rfl⟩ := h
    simpa using plain_resolveDscp hw
  case icmpType =>
    obtain ⟨w, hw, rfl⟩ := h
    simpa using plain_resolveIcmpType hw
  case icmpv6Type =>
    obtain ⟨w, hw, rfl⟩ := h
    simpa using plain_resolveIcmpv6Type hw
  case arpOperation =>
    obtain ⟨w, hw, rfl⟩ := h
    simpa using plain_resolveArpOperation hw
  case ctState | ctStatus =>
    obtain ⟨ws, hws, rfl⟩ := h
    simpa using plain_words hws
  case ctDirection | packetType =>
    obtain ⟨_, -, rfl⟩ := h
    simp
  case connectionCount above =>
    obtain ⟨_, -, rfl⟩ := h
    cases above <;> simp [Fragment.connectionCount]
  case fingerprint =>
    obtain ⟨_, -, rfl⟩ := h
    simpa [Term.fingerprint, Condition.Plain] using hc
  case raw =>
    obtain ⟨left, hleft, _, -, rfl⟩ := h
    simpa [plain_rawTerm hleft, Condition.Plain] using hc
  case rawMasked =>
    obtain ⟨left, hleft, rfl⟩ := h
    simpa [plain_rawTerm hleft, Condition.Plain] using hc
  case inSet =>
    obtain ⟨left, hleft, right, hright, rfl⟩ := h
    simp [plain_setField hleft, Term.plain_setRef? hright]
  case tcpFlags =>
    obtain ⟨flags, hflags, h⟩ := h
    split at h
    · cases h
      simpa using plain_words hflags
    · obtain ⟨mask, hmask, rfl⟩ := map_ok_iff.mp h
      simpa using ⟨plain_words (liftM_argument_ok_iff.mp hmask), plain_words hflags⟩

section Parts

variable {v w : Value}

theorem Fragment.plain_orNothing {es : List (String × Value)} (h : (Value.object es).Plain) :
    (orNothing es).Plain := by
  cases es with
  | nil => exact .null
  | cons e es => exact h

/-- Leaving entries out keeps an object plain. -/
theorem Fragment.plain_given {es fs : List (String × Value)}
    (h : (Value.object (es ++ fs)).Plain) : (Value.object (given es ++ fs)).Plain := by
  rw [Value.plain_object_iff] at h ⊢
  have hsub : (given es ++ fs).Sublist (es ++ fs) :=
    List.Sublist.append List.filter_sublist (List.Sublist.refl fs)
  exact ⟨(hsub.map Prod.fst).nodup h.1, fun e he ↦ h.2 e (hsub.subset he)⟩

theorem Fragment.plain_orNothing_given {es : List (String × Value)} (h : (Value.object es).Plain) :
    (orNothing (given es)).Plain := by
  have hgiven : (Value.object (given es ++ [])).Plain := plain_given (by rwa [List.append_nil])
  rw [List.append_nil] at hgiven
  exact plain_orNothing hgiven

theorem Action.plain_optionally {check : Value → Except ArgumentError Value}
    (hcheck : ∀ w, check v = .ok w → w.Plain) (h : optionally check v = .ok w) : w.Plain := by
  unfold optionally at h
  split at h
  · cases h
    exact .null
  · exact hcheck w h

theorem Action.plain_int {what : String} {low high : Int} (h : int what low high v = .ok w) :
    w.Plain := by
  obtain ⟨n, -, rfl⟩ := map_ok_iff.mp h
  exact .int n

theorem Action.plain_ports (h : ports v = .ok w) : w.Plain := by
  unfold ports at h
  split at h
  · cases h
    exact .null
  · obtain ⟨ps, -, rfl⟩ := map_ok_iff.mp h
    exact ps.plain_term

theorem Action.plain_level (h : level v = .ok w) : w.Plain := by
  obtain ⟨l, -, h⟩ := bind_ok_iff.mp h
  cases h
  exact .str _

theorem Action.plain_family (h : family v = .ok w) : w.Plain := by
  obtain ⟨f, -, h⟩ := bind_ok_iff.mp h
  cases h
  exact .str _

theorem Action.plain_flags (fs : List (String × Bool)) : ∀ e ∈ flags fs, e.2.Plain := by
  unfold flags
  split <;> simp

theorem RejectFlavor.plain_typeTerm (r : RejectFlavor) : r.typeTerm.Plain := by
  unfold typeTerm
  cases r.type <;> simp [textOrNull]

theorem RejectFlavor.plain_codeTerm (r : RejectFlavor) : r.codeTerm.Plain := by
  unfold codeTerm
  cases r.code <;> simp [textOrNull]

theorem Fragment.plain_reject (hv : v.Plain) (hw : w.Plain) : (reject v w).value.Plain := by
  unfold reject
  split
  · exact .null
  · split
    · simpa using hv
    · simpa using ⟨hv, hw⟩

theorem Fragment.plain_limit {per : String} {inverted : Bool} (hv : v.Plain) (hw : w.Plain) :
    (limit v per w .null inverted).value.Plain := by
  cases hnull : w.isNull <;> cases inverted <;> simp [limit, statement, given, hnull, hv, hw]

theorem Fragment.plain_nat {kind : String} (hv : v.Plain) (hw : w.Plain) :
    (nat kind v w .null).value.Plain :=
  plain_orNothing_given (by simp [hv, hw])

end Parts

theorem Action.Plain.fragment {a : Action} {family : Family} {f : Fragment} (ha : a.Plain)
    (h : a.fragment family = .ok f) : f.value.Plain := by
  cases a
  all_goals
    simp only [Action.fragment, bind_ok_iff, pure_ok_iff, liftM_argument_ok_iff,
      liftM_shape_ok_iff] at h
  case counter name =>
    subst h
    unfold Fragment.counter Fragment.statement
    split
    · simp
    · exact ha
  case setCt =>
    subst h
    simpa [Fragment.mangle, Fragment.statement, Action.Plain] using ha
  case saveMark | restoreMark | increment | decrement =>
    subst h
    simp [Fragment.mangle, Fragment.statement, Term.plus, Term.minus]
  case verdict v target =>
    subst h
    unfold Fragment.verdict
    split
    · simpa [Action.Plain] using ha
    · exact .null
  case notrack =>
    subst h
    exact .null
  case dup device address =>
    subst h
    exact Fragment.plain_given (by simpa [Action.Plain] using ha.symm)
  case setNumber =>
    obtain ⟨_, -, rfl⟩ := h
    simp [Fragment.mangle, Fragment.statement]
  case setDscp =>
    obtain ⟨w, hw, rfl⟩ := h
    simpa [Fragment.mangle, Fragment.statement] using plain_resolveDscp hw
  case translate kind address ports =>
    obtain ⟨p, hp, rfl⟩ := h
    exact Fragment.plain_nat ha (plain_ports hp)
  case redirect =>
    obtain ⟨ps, -, rfl⟩ := h
    exact Fragment.plain_nat .null ps.plain_term
  case reject =>
    obtain ⟨r, -, rfl⟩ := h
    exact Fragment.plain_reject r.plain_typeTerm r.plain_codeTerm
  case queue num bypass fanout =>
    obtain ⟨w, hw, rfl⟩ := h
    cases bypass <;> cases fanout <;> simp [Fragment.statement, Action.flags, plain_int hw]
  case flowOffload =>
    obtain ⟨w, hw, rfl⟩ := h
    simpa [Fragment.statement] using Term.plain_setRef? hw
  case log =>
    obtain ⟨lvl, hlvl, group, hgroup, rfl⟩ := h
    have hlvl := plain_optionally (fun _ ↦ plain_level) hlvl
    have hgroup := plain_optionally (fun _ ↦ plain_int) hgroup
    exact Fragment.plain_orNothing_given (by simpa [hlvl, hgroup, Action.Plain] using ha)
  case synproxy mss scale sackPermitted timestamp =>
    obtain ⟨mss, hmss, scale, hscale, rfl⟩ := h
    have hmss := plain_optionally (fun _ ↦ plain_int) hmss
    have hscale := plain_optionally (fun _ ↦ plain_int) hscale
    refine Fragment.plain_orNothing (Fragment.plain_given ?_)
    cases sackPermitted <;> cases timestamp <;> simp [flags, hmss, hscale]
  case tproxy =>
    obtain ⟨f, hf, port, -, rfl⟩ := h
    have hf := plain_optionally (fun _ ↦ plain_family) hf
    exact Fragment.plain_given (by simpa [hf, Action.Plain] using ha)
  case limit =>
    obtain ⟨rate, hrate, burst, hburst, per, -, rfl⟩ := h
    exact Fragment.plain_limit (plain_int hrate) (plain_optionally (fun _ ↦ plain_int) hburst)
  case meter op key set rate per burst =>
    obtain ⟨per, -, rate, hrate, reference, hset, rfl⟩ := h
    have hlimit : (Fragment.limit rate per burst .null false).body.Plain :=
      Term.plain_single.mpr (Fragment.plain_limit (plain_int hrate) ha.2)
    simpa [Fragment.setStatement, Fragment.statement, hlimit, Term.plain_setRef? hset] using ha.1
  case setMss =>
    split at h
    · cases h
      simp [Fragment.mangle, Fragment.statement, Term.tcpOption]
    · obtain ⟨w, hw, rfl⟩ := map_ok_iff.mp h
      have hw := plain_int (liftM_argument_ok_iff.mp hw)
      simp [Fragment.mangle, Fragment.statement, Term.tcpOption, hw]

end Nftables
