import Nftables.Proofs.Address.Literal
import Nftables.Proofs.Expr.Run

/-!
# Conditions on addresses

A condition on an address asks for what the literal says: an address of the version that the literal
has, or the block of the addresses that share as many bits with it as the literal says.  What goes
out can be given back and leads to the same condition.
-/

namespace Nftables

open Text (showNat trim)

/-- The name of the protocol whose header holds addresses of a version. -/
def IpVersion.header : IpVersion → String
  | v4 => "ip"
  | v6 => "ip6"

/-- A family for one version of the protocol admits no addresses of the other version. -/
def Family.Admits (f : Family) (v : IpVersion) : Prop :=
  (f = .ip → v = .v4) ∧ (f = .ip6 → v = .v6)

/-- A term says what a literal says, and a text can be given instead of the literal: without a
length the address, whatever its zone, and otherwise the length and an address that agrees with that
of the literal on as many bits and has no other ones. -/
inductive AddressLiteral.Means (l : AddressLiteral) : Value → String → Prop where
  | address {s : String} {zone : Option (List Char)} : l.length = none →
      AddressText s.toList l.address zone → Means l (.str s) s
  | block {s : String} {first : Address} {zone : Option (List Char)} {n : Nat} :
      l.length = some n → AddressText s.toList first zone → first.version = l.address.version →
      (∀ i, first.bit i = (decide (i < n) && l.address.bit i)) →
      Means l (.object [("prefix", .object [("addr", .str s), ("len", .int n)])])
        (s ++ "/" ++ showNat n)

/-! ## Texts that are given back -/

namespace AddressText

variable {cs ms : List Char} {a : Address} {zone : Option (List Char)} {c : Char} {n : Nat}

theorem isBlank_head (h : AddressText cs a zone) (hc : c ∈ cs.head?) : Text.isBlank c = false := by
  cases zone with
  | none => exact h.isBlank_eq_false (List.mem_of_mem_head? hc)
  | some z =>
    cases h with
    | zoned htext =>
      rw [List.head?_append_of_ne_nil _ (List.ne_nil_of_mem htext.colon_mem)] at hc
      exact (AddressText.v6 htext).isBlank_eq_false (List.mem_of_mem_head? hc)

theorem trim_eq_self (h : AddressText cs a none) : trim cs = cs :=
  Text.trim_of_forall fun _ ↦ h.isBlank_eq_false

theorem trim_block (h : AddressText cs a zone) (n : Nat) :
    trim (cs ++ '/' :: Text.decimal n) = cs ++ '/' :: Text.decimal n := by
  refine Text.trim_eq_self (fun c hc ↦ ?_) (fun c hc ↦ ?_)
  · rw [List.head?_append_of_ne_nil _ h.ne_nil] at hc
    exact h.isBlank_head hc
  · have hmem : c ∈ Text.decimal n := by
      rw [List.getLast?_append_of_ne_nil _ (List.cons_ne_nil _ _),
        List.getLast?_cons_of_ne_nil (Text.decimal_ne_nil n)] at hc
      exact List.mem_of_getLast? hc
    obtain ⟨d, hd, -⟩ := Text.mem_decimal hmem
    exact Text.isBlank_of_digitValue? (by simp [hd])

end AddressText

/-! ## Fragments -/

namespace Condition

variable {family : Family} {protocol : Option Protocol} {side : Endpoint} {v : Value}
  {negated : Bool} {f : Fragment} {cs : List Char} {l : AddressLiteral}

theorem addressLiteral_ok_iff : addressLiteral v = .ok l ↔ LiteralText (trim v.text) l := by
  rw [← AddressLiteral.parse?_eq_some_iff, addressLiteral]
  cases AddressLiteral.parse? (trim v.text) <;> simp

theorem addressProtocol_ok_iff {version : IpVersion} {header : String} :
    addressProtocol family version = .ok header ↔
      family.Admits version ∧ version.header = header := by
  cases family <;> cases version <;> simp [addressProtocol, Family.Admits, IpVersion.header]

/-- The fragment of a condition on an address. -/
def addressFragment (side : Endpoint) (negated : Bool) (l : AddressLiteral) : Fragment :=
  .condition (Term.payload l.address.version.header (.str side.addressField)) (addressTerm l)
    (equality negated)

theorem address_fragment_ok_iff :
    (Condition.address side v negated).fragment family protocol = .ok f ↔
      ∃ l, LiteralText (trim v.text) l ∧ family.Admits l.address.version ∧
        addressFragment side negated l = f := by
  simp only [fragment, bind_ok_iff, liftM_argument_ok_iff, addressLiteral_ok_iff,
    addressProtocol_ok_iff, pure_ok_iff]
  refine exists_congr fun l ↦ and_congr_right fun _ ↦ ?_
  constructor
  · rintro ⟨_, ⟨hadmits, rfl⟩, rfl⟩
    exact ⟨hadmits, rfl⟩
  · rintro ⟨hadmits, rfl⟩
    exact ⟨_, ⟨hadmits, rfl⟩, rfl⟩

theorem address_fragment_error {err : BuildError}
    (h : (Condition.address side v negated).fragment family protocol = .error err) :
    ∃ a, err = .argument a := by
  simp only [fragment, bind_error_iff, liftM_argument_error_iff] at h
  rcases h with ⟨a, -, rfl⟩ | ⟨l, -, ⟨a, -, rfl⟩ | ⟨p, -, h⟩⟩
  · exact ⟨a, rfl⟩
  · exact ⟨a, rfl⟩
  · cases h

/-- What goes out for a literal means it, and is what goes out for its own text. -/
theorem addressTerm_means (hl : LiteralText cs l) :
    ∃ s l', l.Means (addressTerm l) s ∧ LiteralText (trim s.toList) l' ∧
      l'.address.version = l.address.version ∧ addressTerm l' = addressTerm l := by
  obtain ⟨_, htext⟩ := hl.addressText
  cases hlength : l.length with
  | none =>
    have hwrite := AddressText.write l.address
    have hterm : addressTerm l = .str (String.ofList l.address.write) := by
      simp only [addressTerm, hlength]
    refine ⟨String.ofList l.address.write, ⟨l.address, none, none⟩, ?_, ?_, rfl, hterm.symm⟩
    · rw [hterm]
      exact .address hlength (by rwa [String.toList_ofList])
    · rw [String.toList_ofList, hwrite.trim_eq_self]
      exact .address hwrite
  | some n =>
    -- the text of a block is that of the literal in which the other bits are cleared
    have hfirst := AddressLiteral.addressText_writeFirst htext n
    have hversion : (l.canonical n).address.version = l.address.version := rfl
    have hterm : addressTerm l =
        Term.addressBlock (.str (String.ofList (l.writeFirst n))) (.int n) := by
      simp only [addressTerm, hlength]
    have hterm' : addressTerm (l.canonical n) =
        Term.addressBlock (.str (String.ofList ((l.canonical n).writeFirst n))) (.int n) := rfl
    refine ⟨String.ofList (l.writeFirst n) ++ "/" ++ showNat n, l.canonical n, ?_, ?_, hversion, ?_⟩
    · rw [hterm]
      exact .block hlength (by rwa [String.toList_ofList]) hversion fun i ↦ Address.bit_truncate
    · have hblock : (String.ofList (l.writeFirst n) ++ "/" ++ showNat n).toList =
          l.writeFirst n ++ '/' :: Text.decimal n := by
        simp [showNat]
      rw [hblock, hfirst.trim_block]
      exact .block hfirst (.decimal (hl.le_width hlength))
    · rw [hterm, hterm', l.writeFirst_canonical]

end Condition

namespace Expr

variable {e : Expr}

/-- In an open expression a condition is as good as its fragment. -/
theorem require_of_open (hopen : e.closed = false) (c : Condition) :
    e.require c = e.push <$> c.fragment e.family e.protocol := by
  have happend (f : Fragment) : e.append f = .ok (e.push f) :=
    append_ok_iff.mpr ⟨fun _ ↦ hopen, rfl⟩
  rw [require, funext happend]
  rfl

/-- **Addresses keep their meaning.**  In an open expression a condition on an address can be asked
for if its text, without the blanks around it, is a literal of a version that the family admits, and
is refused with an error about the argument otherwise.  What goes out means what the literal says,
and the text of it leads to the same fragment in every open expression of the family. -/
theorem addresses_keep_meaning (side : Endpoint) (v : Value) (negated : Bool)
    (hopen : e.closed = false) :
    ((∃ e', e.require (.address side v negated) = .ok e') ↔
        ∃ l, LiteralText (trim v.text) l ∧ e.family.Admits l.address.version) ∧
      (∀ err, e.require (.address side v negated) = .error err → ∃ a, err = .argument a) ∧
      ∀ e', e.require (.address side v negated) = .ok e' →
        ∃ l right s f, LiteralText (trim v.text) l ∧ l.Means right s ∧
          f = Fragment.condition
            (Term.payload l.address.version.header (.str side.addressField)) right
            (Condition.equality negated) ∧
          e' = e.push f ∧
          ∀ e₁ : Expr, e₁.closed = false → e₁.family = e.family →
            e₁.require (.address side (.str s) negated) = .ok (e₁.push f) := by
  rw [require_of_open hopen]
  refine ⟨?_, fun err h ↦ Condition.address_fragment_error (map_error_iff.mp h), fun e' h ↦ ?_⟩
  · simp [Condition.address_fragment_ok_iff]
  · obtain ⟨f, hf, rfl⟩ := map_ok_iff.mp h
    obtain ⟨l, hl, hadmits, rfl⟩ := Condition.address_fragment_ok_iff.mp hf
    obtain ⟨s, l', hmeans, hl', hversion, hterm⟩ := Condition.addressTerm_means hl
    refine ⟨l, _, s, _, hl, hmeans, rfl, rfl, fun e₁ hopen₁ hfamily ↦ ?_⟩
    rw [require_of_open hopen₁]
    refine map_ok_iff.mpr ⟨_, Condition.address_fragment_ok_iff.mpr ⟨l', hl', ?_, rfl⟩, ?_⟩
    · rwa [hfamily, hversion]
    · rw [Condition.addressFragment, hversion, hterm]

/-- The network of an address that is given with a mask. -/
theorem addresses_keep_meaning_masked :
    Expr.closed { family := .inet } = false ∧
      ∃ e', Expr.require { family := .inet }
        (.address .source (.str " 10.1.2.3/255.0.0.0 ") false) = .ok e' := by
  have hopen : Expr.closed { family := .inet } = false := rfl
  have hparse : AddressLiteral.parse? (trim " 10.1.2.3/255.0.0.0 ".toList) =
      some ⟨⟨.v4, 0x0A010203⟩, none, some 8⟩ := by
    decide +kernel
  exact ⟨hopen, (addresses_keep_meaning .source _ false hopen).1.mpr
    ⟨_, AddressLiteral.parse?_eq_some_iff.mp hparse, by simp [Family.Admits]⟩⟩

end Expr
end Nftables
