import Nftables.Proofs.Expr.Run
import Nftables.Proofs.Value.Equality

/-!
# The protocol in the context

An expression knows which transport protocol its conditions are about.  This agrees with what the
fragments ask: the protocol in the context is the one asked for last, and a condition on ports, or
on the header of GRE, comes after the question for the protocol that it is about.
-/

namespace Nftables

/-! ## What a fragment asks -/

namespace Fragment

/-- One side of a condition. -/
def side? (f : Fragment) (side : String) : Option Value :=
  if f.kind = .condition ∧ f.key = "match" then f.value.get? side else none

/-- An entry of the payload that a condition has on its left: the protocol or the field. -/
def payload? (f : Fragment) (entry : String) : Option Value :=
  ((f.side? "left").bind (·.get? "payload")).bind (·.get? entry)

/-- Is a fragment a condition on the transport protocol? -/
def AsksProtocol (f : Fragment) : Prop :=
  (f.payload? "protocol" = some (.str "ip") ∧ f.payload? "field" = some (.str "protocol")) ∨
    (f.payload? "protocol" = some (.str "ip6") ∧ f.payload? "field" = some (.str "nexthdr"))

instance : DecidablePred AsksProtocol := fun _ ↦ inferInstanceAs (Decidable (_ ∨ _))

/-- The transport protocol that fragments ask for last. -/
def lastAsked? (fs : List Fragment) : Option Value :=
  (fs.filter (AsksProtocol ·)).getLast?.bind (·.side? "right")

/-- The transport protocols that have ports. -/
def portCarriers : List Protocol :=
  [.tcp, .udp, .udplite, .sctp, .dccp]

/-- A fragment suits what has been asked for before it: a condition on ports names the protocol that
has been asked for, and one on the header of GRE comes after a question for GRE. -/
structure Suits (f : Fragment) (asked : Option Value) : Prop where
  ports : f.payload? "field" = some (.str "sport") ∨ f.payload? "field" = some (.str "dport") →
    ∃ p ∈ portCarriers, f.payload? "protocol" = some (.str (Vocabulary.wire p)) ∧
      asked = some (.str (Vocabulary.wire p))
  gre : f.payload? "protocol" = some (.str "gre") → asked = some (.str "gre")

/-- Does a fragment ask neither for a protocol nor for what depends on one? -/
def Neutral (f : Fragment) : Prop :=
  f.payload? "protocol" ≠ some (.str "gre") ∧
    ∀ field ∈ ["protocol", "nexthdr", "sport", "dport"], f.payload? "field" ≠ some (.str field)

variable {f : Fragment} {fs : List Fragment} {left right : Value}
  {relation entry header field : String}

theorem payload?_condition : (condition left right relation).payload? entry =
    (left.get? "payload").bind (·.get? entry) := rfl

@[simp] theorem payload?_protocol :
    (condition (Term.payload header (.str field)) right relation).payload? "protocol" =
      some (.str header) := rfl

@[simp] theorem payload?_field :
    (condition (Term.payload header (.str field)) right relation).payload? "field" =
      some (.str field) := rfl

theorem neutral_of_eq_none (hheader : f.payload? "protocol" = none)
    (hfield : f.payload? "field" = none) : f.Neutral := by
  simp [Neutral, hheader, hfield]

theorem neutral_of_no_payload (h : left.get? "payload" = none) :
    (condition left right relation).Neutral :=
  neutral_of_eq_none (by rw [payload?_condition, h]; rfl) (by rw [payload?_condition, h]; rfl)

theorem neutral_payload (hheader : header ≠ "gre")
    (hfield : field ∉ ["protocol", "nexthdr", "sport", "dport"]) :
    (condition (Term.payload header (.str field)) right relation).Neutral := by
  refine ⟨by simpa using hheader, fun field' hmem he ↦ hfield ?_⟩
  rw [payload?_field, Option.some.injEq, Value.str.injEq] at he
  rwa [he]

theorem neutral_of_kind (h : f.kind ≠ .condition) : f.Neutral :=
  neutral_of_eq_none (by simp [payload?, side?, h]) (by simp [payload?, side?, h])

namespace Neutral

theorem not_asksProtocol (h : f.Neutral) : ¬ f.AsksProtocol := by
  rintro (⟨-, hfield⟩ | ⟨-, hfield⟩)
  · exact h.2 _ (by decide) hfield
  · exact h.2 _ (by decide) hfield

theorem suits (h : f.Neutral) (asked : Option Value) : f.Suits asked where
  ports := by
    rintro (hfield | hfield)
    · exact absurd hfield (h.2 _ (by decide))
    · exact absurd hfield (h.2 _ (by decide))
  gre hheader := absurd hheader h.1

end Neutral

theorem lastAsked?_append_of_asks (h : f.AsksProtocol) :
    lastAsked? (fs ++ [f]) = f.side? "right" := by
  simp [lastAsked?, h]

theorem lastAsked?_append_of_not_asks (h : ¬ f.AsksProtocol) :
    lastAsked? (fs ++ [f]) = lastAsked? fs := by
  simp [lastAsked?, h]

end Fragment

open Fragment (lastAsked? portCarriers)

/-! ## What conditions ask -/

namespace Condition

variable {family : Family} {protocol : Option Protocol} {f : Fragment} {c : Condition}

theorem addressProtocol_ok {version : IpVersion} {header : String}
    (h : addressProtocol family version = .ok header) : header = "ip" ∨ header = "ip6" := by
  unfold addressProtocol at h
  split at h <;> cases h <;> simp

theorem portProtocol_ok {field header : String} (h : portProtocol field protocol = .ok header) :
    ∃ p ∈ portCarriers, protocol = some p ∧ header = Vocabulary.wire p := by
  cases protocol with
  | none => cases h
  | some p =>
    cases p <;> cases h <;> exact ⟨_, by decide, rfl, rfl⟩

theorem portProtocol_of_mem {p : Protocol} (field : String) (hp : p ∈ portCarriers) :
    portProtocol field (some p) = .ok (Vocabulary.wire p) := by
  cases p <;> first | rfl | simp [portCarriers] at hp

theorem networkProtocol_ne_gre (family : Family) : networkProtocol family ≠ "gre" := by
  cases family <;> decide

theorem rawTerm_ok {base offset size left : Value} (h : rawTerm base offset size = .ok left) :
    ∃ b o n, left = Term.rawPayload b o n := by
  simp only [rawTerm, bind_ok_iff, Except.ok.injEq] at h
  obtain ⟨b, -, o, -, n, -, rfl⟩ := h
  exact ⟨_, _, _, rfl⟩

/-- Is a condition on what depends on the transport protocol? -/
def ReadsTransport : Condition → Prop
  | .port .. => True
  | .inSet _ field _ => field = .str "sport" ∨ field = .str "dport"
  | c => c.ReadsGre

theorem neutral_of_fragment (h : c.fragment family protocol = .ok f) (hc : ¬ c.ReadsTransport) :
    f.Neutral := by
  cases c
  all_goals simp only [fragment, bind_ok_iff, pure_ok_iff, liftM_argument_ok_iff] at h
  case port => exact absurd trivial hc
  case address e _ _ =>
    obtain ⟨_, -, header, hheader, rfl⟩ := h
    refine Fragment.neutral_payload ?_ ?_
    · obtain rfl | rfl := addressProtocol_ok hheader <;> decide
    · cases e <;> decide
  case interface | transparent | fragmented =>
    subst h
    exact Fragment.neutral_of_no_payload rfl
  case openField field _ =>
    subst h
    cases field with
    | etherSource | etherDestination => exact Fragment.neutral_payload (by decide) (by decide)
    | _ => exact Fragment.neutral_of_no_payload rfl
  case number field _ _ =>
    obtain ⟨_, -, _, -, rfl⟩ := h
    cases field with
    | greVersion | greKey | greFlags => exact absurd (by simp [ReadsTransport, ReadsGre]) hc
    | vlanId | vlanPcp | icmpCode | icmpv6Code | ahSpi | espSpi | ttl | hopLimit =>
      exact Fragment.neutral_payload (by decide) (by decide)
    | _ => exact Fragment.neutral_of_no_payload rfl
  case length =>
    obtain ⟨_, -, _, -, rfl⟩ := h
    refine Fragment.neutral_payload (networkProtocol_ne_gre family) ?_
    split <;> decide
  case dscp =>
    obtain ⟨_, -, rfl⟩ := h
    exact Fragment.neutral_payload (networkProtocol_ne_gre family) (by decide)
  case tcpFlags =>
    obtain ⟨_, -, h⟩ := h
    split at h
    · cases h
      exact Fragment.neutral_payload (by decide) (by decide)
    · obtain ⟨_, -, rfl⟩ := map_ok_iff.mp h
      exact Fragment.neutral_of_no_payload rfl
  case icmpType | icmpv6Type | arpOperation =>
    obtain ⟨_, -, rfl⟩ := h
    exact Fragment.neutral_payload (by decide) (by decide)
  case ctState | ctStatus | ctDirection | packetType | fingerprint | rawMasked =>
    obtain ⟨_, -, rfl⟩ := h
    exact Fragment.neutral_of_no_payload rfl
  case connectionCount =>
    obtain ⟨_, -, rfl⟩ := h
    exact Fragment.neutral_of_eq_none rfl rfl
  case raw =>
    obtain ⟨_, hleft, _, -, rfl⟩ := h
    obtain ⟨_, _, _, rfl⟩ := rawTerm_ok hleft
    exact Fragment.neutral_of_eq_none rfl rfl
  case inSet =>
    obtain ⟨left, hleft, _, -, rfl⟩ := h
    unfold setField at hleft
    split at hleft
    case h_1 | h_2 =>
      cases hleft
      exact Fragment.neutral_payload (networkProtocol_ne_gre family) (by decide)
    case h_3 | h_4 => exact absurd (by simp [ReadsTransport]) hc
    case h_5 => cases hleft

/-- A condition on ports names the protocol that the context is about. -/
theorem suits_of_portProtocol {e : Endpoint} {header : String}
    (h : portProtocol e.portField protocol = .ok header) (right : Value) (relation : String) :
    ¬ (Fragment.condition (Term.payload header (.str e.portField)) right relation).AsksProtocol ∧
      (Fragment.condition (Term.payload header (.str e.portField)) right relation).Suits
        (protocol.map fun p ↦ .str (Vocabulary.wire p)) := by
  obtain ⟨p, hp, rfl, rfl⟩ := portProtocol_ok h
  refine ⟨?_, ⟨fun _ ↦ ⟨p, hp, rfl, rfl⟩, fun hheader ↦ hheader⟩⟩
  cases e with
  | source => simp [Fragment.AsksProtocol, Endpoint.portField]
  | destination => simp [Fragment.AsksProtocol, Endpoint.portField]

/-- A condition on the header of GRE suits a question for GRE. -/
theorem suits_of_gre {field : String} (hfield : field ∉ ["sport", "dport"]) (right : Value)
    (relation : String) :
    ¬ (Fragment.condition (Term.payload "gre" (.str field)) right relation).AsksProtocol ∧
      (Fragment.condition (Term.payload "gre" (.str field)) right relation).Suits
        (some (.str "gre")) := by
  refine ⟨by simp [Fragment.AsksProtocol], ⟨fun hports ↦ absurd ?_ hfield, fun _ ↦ rfl⟩⟩
  simpa using hports

/-- A condition suits the protocol that the context is about, one on the header of GRE if that is
the protocol. -/
theorem suits_of_fragment (h : c.fragment family protocol = .ok f)
    (hgre : c.ReadsGre → protocol = some .gre) :
    ¬ f.AsksProtocol ∧ f.Suits (protocol.map fun p ↦ .str (Vocabulary.wire p)) := by
  by_cases hc : c.ReadsTransport
  case neg =>
    have hneutral := neutral_of_fragment h hc
    exact ⟨hneutral.not_asksProtocol, hneutral.suits _⟩
  cases c
  all_goals simp only [fragment, bind_ok_iff, pure_ok_iff, liftM_context_ok_iff] at h
  case port e _ _ =>
    obtain ⟨header, hheader, _, -, rfl⟩ := h
    exact suits_of_portProtocol hheader _ _
  case inSet =>
    obtain ⟨left, hleft, _, -, rfl⟩ := h
    obtain rfl | rfl := hc
    · obtain ⟨header, hheader, rfl⟩ := map_ok_iff.mp hleft
      exact suits_of_portProtocol (e := .source) (liftM_context_ok_iff.mp hheader) _ _
    · obtain ⟨header, hheader, rfl⟩ := map_ok_iff.mp hleft
      exact suits_of_portProtocol (e := .destination) (liftM_context_ok_iff.mp hheader) _ _
  case number field _ _ =>
    obtain ⟨_, -, _, -, rfl⟩ := h
    rw [hgre hc]
    obtain rfl | rfl | rfl := hc <;> exact suits_of_gre (by decide) _ _
  all_goals exact hc.elim

end Condition

namespace Expr

variable {e e' : Expr} {f : Fragment} {p : Protocol} {c : Condition} {s : Step}

/-! ## The question for the protocol -/

theorem asksProtocol_protocolFragment (family : Family) (p : Protocol) :
    (protocolFragment family p).AsksProtocol := by
  unfold protocolFragment
  split
  · exact .inr ⟨rfl, rfl⟩
  · exact .inl ⟨rfl, rfl⟩

theorem suits_protocolFragment (family : Family) (p : Protocol) (asked : Option Value) :
    (protocolFragment family p).Suits asked := by
  unfold protocolFragment
  split
  · exact ⟨by simp, by simp⟩
  · exact ⟨by simp, by simp⟩

/-! ## What every step preserves -/

/-- The context of an expression and its fragments belong together. -/
structure TracksProtocol (e : Expr) : Prop where
  /-- the context is about no protocol as long as none is asked for -/
  protocol_eq_none_iff : e.protocol = none ↔ ∀ f ∈ e.fragments, ¬ f.AsksProtocol
  /-- otherwise it is about the one that is asked for last -/
  lastAsked? : lastAsked? e.fragments = e.protocol.map fun p ↦ .str (Vocabulary.wire p)
  /-- each fragment suits what is asked for before it -/
  suits : ∀ before f after, e.fragments = before ++ f :: after →
    f.Suits (Fragment.lastAsked? before)

/-- Where a list with one more item at its end comes apart before an item. -/
theorem append_singleton_eq {α : Type} {l before after : List α} {a b : α}
    (h : l ++ [a] = before ++ b :: after) :
    (before = l ∧ b = a) ∨ ∃ after', l = before ++ b :: after' := by
  obtain rfl | ⟨after', x, rfl⟩ := List.eq_nil_or_concat after
  · obtain ⟨rfl, hb⟩ := List.append_inj' h rfl
    exact .inl ⟨rfl, (List.singleton_inj.mp hb).symm⟩
  · rw [List.concat_eq_append, ← List.cons_append, ← List.append_assoc] at h
    exact .inr ⟨after', (List.append_inj' h rfl).1⟩

theorem suits_push (he : e.TracksProtocol) (hf : f.Suits (lastAsked? e.fragments))
    {before after : List Fragment} {g : Fragment}
    (h : e.fragments ++ [f] = before ++ g :: after) : g.Suits (lastAsked? before) := by
  obtain ⟨rfl, rfl⟩ | ⟨after', h⟩ := append_singleton_eq h
  · exact hf
  · exact he.suits before g after' h

theorem tracks_push (he : e.TracksProtocol) (hasks : ¬ f.AsksProtocol)
    (hf : f.Suits (e.protocol.map fun p ↦ .str (Vocabulary.wire p))) :
    (e.push f).TracksProtocol where
  protocol_eq_none_iff := by
    rw [push_protocol, he.protocol_eq_none_iff, push_fragments, List.forall_mem_append]
    simp [hasks]
  lastAsked? := (Fragment.lastAsked?_append_of_not_asks hasks).trans he.lastAsked?
  suits _ _ _ h := suits_push he (he.lastAsked? ▸ hf) h

theorem tracks_setProtocol (he : e.TracksProtocol) (h : e.setProtocol p = .ok e') :
    e'.TracksProtocol := by
  obtain ⟨-, rfl⟩ := setProtocol_ok_iff.mp h
  have hasks := asksProtocol_protocolFragment e.family p
  refine ⟨?_, Fragment.lastAsked?_append_of_asks hasks, fun _ _ _ h ↦ ?_⟩
  · simp [hasks]
  · exact suits_push he (suits_protocolFragment _ _ _) h

theorem tracks_require (he : e.TracksProtocol) (hgre : c.ReadsGre → e.protocol = some .gre)
    (h : e.require c = .ok e') : e'.TracksProtocol := by
  obtain ⟨f, hf, -, rfl⟩ := require_ok_iff.mp h
  obtain ⟨hasks, hsuits⟩ := Condition.suits_of_fragment hf hgre
  exact tracks_push he hasks hsuits

/-- **One step.**  A step that a call names keeps the context and the fragments together. -/
theorem tracks_apply (he : e.TracksProtocol) (hs : s.Named) (h : e.apply s = .ok e') :
    e'.TracksProtocol := by
  cases s with
  | comment text =>
    cases h
    exact ⟨he.protocol_eq_none_iff, he.lastAsked?, he.suits⟩
  | append f => exact hs.elim
  | protocol name =>
    obtain ⟨p, -, h⟩ := bind_ok_iff.mp h
    exact tracks_setProtocol he h
  | within p c =>
    obtain ⟨e₁, h₁, hrequire⟩ := bind_ok_iff.mp h
    obtain rfl : p = .gre := hs
    refine tracks_require ?_ (fun _ ↦ protocol_ensureProtocol h₁) hrequire
    obtain ⟨-, rfl⟩ | ⟨-, h₁⟩ := ensureProtocol_ok_iff.mp h₁
    · exact he
    · exact tracks_setProtocol he h₁
  | condition c => exact tracks_require he (fun hc ↦ absurd hc hs) h
  | action a =>
    obtain ⟨f, hf, rfl⟩ := perform_ok_iff.mp h
    have hneutral := Fragment.neutral_of_kind (Action.kind_of_fragment hf)
    exact tracks_push he hneutral.not_asksProtocol (hneutral.suits _)

/-- **The protocol in the context is the one asked for last**, in every expression that calls lead
to, whichever of them are refused on the way. -/
theorem tracksProtocol_after_calls {family : Value} {e : Expr} (h : begin family = .ok e)
    (calls : List Call) : (e.after (calls.map .call)).TracksProtocol := by
  have he : e.TracksProtocol := by
    obtain ⟨f, -, h⟩ := bind_ok_iff.mp h
    cases h
    exact ⟨by simp, rfl, fun before f after h ↦ by simp at h⟩
  refine after_induction (fun e m e' hm he h ↦ ?_) he
  obtain ⟨c, -, rfl⟩ := List.mem_map.mp hm
  obtain ⟨s, hs, h⟩ := move_ok_iff.mp h
  exact tracks_apply he (Step.ofCall_ok hs).1 h

/-- A rule on TCP, then on UDP, then on GRE, which has no ports. -/
def switching : List Call :=
  [⟨"tcp", [], []⟩, ⟨"dport", [.int 22], []⟩, ⟨"udp", [], []⟩,
    ⟨"in_set", [.str "resolvers", .str "sport"], []⟩, ⟨"gre_key", [.int 5], []⟩,
    ⟨"sport", [.int 53], []⟩]

/-- The last call is refused, and GRE is asked for though no call does so. -/
theorem tracksProtocol_after_calls_switching :
    ∃ e, begin (.str "ip6") = .ok e ∧ (e.after (switching.map .call)).protocol = some .gre ∧
      (e.after (switching.map .call)).fragments.length = 6 ∧
      (e.after (switching.map .call)).TracksProtocol :=
  ⟨_, rfl, rfl, rfl,
    tracksProtocol_after_calls (show begin (.str "ip6") = .ok _ from rfl) switching⟩

end Expr
end Nftables
