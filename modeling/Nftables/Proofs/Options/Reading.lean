import Nftables.Options
import Nftables.Proofs.Success
import Nftables.Proofs.Text.Digits

/-!
# Reading configurations

A configuration is read key by key (`ofMapping_ok_iff`).  Most of what can be wrong with it is
refused with a message.  What is not (`BreaksOff`) is said without the reading of the options: a
text that YAML admits and that has no datum, a timeout beyond all floating-point numbers, a command
with an open quote, and a key or a value whose refusal cannot be told, since an integer in it has too
many digits to be written.
-/

namespace Nftables

open Yaml (Datum)

namespace Options

variable {es : List (Datum × Datum)} {d : Datum} {e : Error} {text : List Char} {key : Key}

/-- A configuration has no value for a key, or one that the key can have. -/
def Reads (es : List (Datum × Datum)) : Key → Prop
  | .timeout => ∃ t, setting es .timeout Client.defaultTimeout readTimeout = .ok t
  | .family => ∃ f, setting es .family none (fun d ↦ some <$> readFamily d) = .ok f
  | .worker => ∃ ws, setting es .worker [] readWorker = .ok ws
  | .markers => ∃ ms, setting es .markers Outcome.defaultMarkers readMarkers = .ok ms
  | .logLevel => ∃ l, setting es .logLevel .warning readLogLevel = .ok l

/-- A configuration is read up to a key: it has no unknown keys, and nothing is wrong with the values
of the keys that are read before this one. -/
structure ReadsUpTo (es : List (Datum × Datum)) (key : Key) : Prop where
  known : unknownKeys es = []
  before : ∀ k ∈ Key.all.takeWhile (· ≠ key), Reads es k

/-- What is wrong with the value of a key, if it is nothing that the user is told. -/
inductive Untold (es : List (Datum × Datum)) : Key → Error → Prop
  /-- the value cannot be written; no key can have such a value, but a timeout may be too large -/
  | badValue {key : Key} {d : Datum} (hd : Datum.lookup key.name es = some d)
      (hlit : d.hasLiteral = false) (hsize : key = .timeout → ∀ n, d = .int n → n ≤ 0) :
      Untold es key (.refused (.badValue key d))
  | hugeTimeout {n : Int} (hd : Datum.lookup "timeout" es = some (.int n)) (hn : 0 < n)
      (hhuge : Binary64.ofInt? n = none) : Untold es .timeout .hugeTimeout
  | command {s : String} {f : Text.Words.Fault}
      (hd : Datum.lookup "worker_command" es = some (.str s)) (hs : commandWords s = .error f) :
      Untold es .worker (.command f)

/-- The mappings with which reading breaks off, and how.  The keys are read one after the other, so a
value only matters if there is nothing wrong with the keys before it. -/
inductive Breaks (es : List (Datum × Datum)) : Error → Prop
  /-- the unknown keys cannot be told -/
  | unknownKeys {k : Datum} (hk : k ∈ unknownKeys es) (hlit : k.hasLiteral = false) :
      Breaks es (.refused (.unknownKeys (unknownKeys es)))
  | value {key : Key} {e : Error} (hreads : ReadsUpTo es key) (h : Untold es key e) : Breaks es e

/-- The texts of configurations with which reading breaks off. -/
inductive BreaksOff (text : List Char) : Error → Prop
  | unreadable {f : Yaml.Fault} (hf : f ≠ .malformed)
      (h : Yaml.load (Text.lineFeeds text) = .error f) : BreaksOff text (.unreadable f)
  | mapping {es : List (Datum × Datum)} {e : Error}
      (h : Yaml.load (Text.lineFeeds text) = .ok (.mapping es)) (he : Breaks es e) :
      BreaksOff text e

/-- What is wrong with a configuration is told to the user: a value is refused, and it can be
written, or the text is no document. -/
inductive Error.IsTold : Error → Prop
  | refused {r : Refusal} (h : ∀ d ∈ r.shown, d.hasLiteral = true) : IsTold (.refused r)
  | malformed : IsTold (.unreadable .malformed)

theorem Refusal.message?_eq_some_iff {r : Refusal} {message : String} :
    r.message? = some message ↔ (∀ d ∈ r.shown, d.hasLiteral = true) ∧ r.message = message := by
  simp [Refusal.message?, List.all_eq_true]

/-! ## Values that cannot be written -/

theorem upperChar_of_mem_decimal {n : Nat} {c : Char} (hc : c ∈ Text.decimal n) :
    Text.upperChar c = [c] ∧ c.isAlpha = false := by
  have hdigits : ∀ d < 10, Text.upperChar d.digitChar = [d.digitChar] ∧
      d.digitChar.isAlpha = false := by decide
  obtain ⟨d, hd, rfl⟩ := Text.exists_digitChar_of_mem_decimal hc
  exact hdigits d hd

/-- The text of what cannot be written starts with a sign, a digit or a bracket. -/
theorem exists_text_eq_cons (h : d.hasLiteral = false) :
    ∃ c cs, d.text = c :: cs ∧ Text.upperChar c = [c] ∧ c.isAlpha = false := by
  cases d with
  | int n =>
    simp only [Datum.text, Datum.literal, Text.integer]
    split
    case isTrue => exact ⟨'-', _, rfl, by decide, rfl⟩
    case isFalse =>
      obtain ⟨c, cs, heq⟩ := List.exists_cons_of_ne_nil (Text.decimal_ne_nil n.natAbs)
      exact ⟨c, cs, heq, upperChar_of_mem_decimal (heq ▸ List.mem_cons_self)⟩
  | list ds => exact ⟨'[', _, rfl, by decide, rfl⟩
  | tuple ds =>
    rcases ds with _ | ⟨d, _ | ⟨d', ds⟩⟩ <;> exact ⟨'(', _, rfl, by decide, rfl⟩
  | set ds =>
    rcases ds with _ | ⟨d, ds⟩
    · cases h
    · exact ⟨'\x7b', _, rfl, by decide, rfl⟩
  | mapping es => exact ⟨'\x7b', _, rfl, by decide, rfl⟩
  | _ => cases h

/-! ## Values -/

theorem setting_error_iff {α : Type} {key : Key} {default : α} {read : Datum → Except Error α} :
    setting es key default read = .error e ↔
      ∃ d, Datum.lookup key.name es = some d ∧ read d = .error e := by
  unfold setting
  cases Datum.lookup key.name es <;> simp

/-- A refusal that is not told is one of a value that cannot be written. -/
theorem refuse_error {α : Type} (he : ¬ e.IsTold) (h : (refuse key d : Except Error α) = .error e) :
    d.hasLiteral = false ∧ e = .refused (.badValue key d) := by
  cases h
  refine ⟨Bool.eq_false_iff.mpr fun hlit ↦ he (.refused ?_), rfl⟩
  simpa [Refusal.shown] using hlit

theorem haveLiterals_of_texts? {ds : List Datum} {ws : List String} (h : texts? ds = some ws) :
    Datum.haveLiterals ds = true := by
  induction ds generalizing ws with
  | nil => rfl
  | cons d ds ih =>
    cases d with
    | str s =>
      obtain ⟨ws', hws', -⟩ := Option.map_eq_some_iff.mp h
      simpa [Datum.haveLiterals, Datum.hasLiteral] using ih hws'
    | _ => cases h

theorem readTimeout_error (he : ¬ e.IsTold) (h : readTimeout d = .error e) :
    (∃ n, d = .int n ∧ 0 < n ∧ Binary64.ofInt? n = none ∧ e = .hugeTimeout) ∨
      d.hasLiteral = false ∧ (∀ n, d = .int n → n ≤ 0) ∧ e = .refused (.badValue .timeout d) := by
  unfold readTimeout at h
  split at h
  case h_1 n =>
    split at h
    case isTrue hn =>
      obtain ⟨hlit, rfl⟩ := refuse_error he h
      exact .inr ⟨hlit, fun m hm ↦ by cases hm; exact hn, rfl⟩
    case isFalse hn =>
      split at h
      case h_1 => cases h
      case h_2 hhuge =>
        cases h
        exact .inl ⟨n, rfl, by omega, hhuge, rfl⟩
  case h_2 =>
    split at h
    case isTrue => cases (refuse_error he h).1
    case isFalse => cases h
  case h_3 hint _ =>
    obtain ⟨hlit, rfl⟩ := refuse_error he h
    exact .inr ⟨hlit, fun n hn ↦ absurd hn (hint n), rfl⟩

theorem readFamily_error (he : ¬ e.IsTold) (h : readFamily d = .error e) :
    d.hasLiteral = false ∧ e = .refused (.badValue .family d) := by
  unfold readFamily at h
  split at h
  case h_1 =>
    split at h
    case h_1 => cases h
    case h_2 => exact refuse_error he h
  case h_2 => exact refuse_error he h

theorem readWorker_error (he : ¬ e.IsTold) (h : readWorker d = .error e) :
    (∃ s f, d = .str s ∧ commandWords s = .error f ∧ e = .command f) ∨
      d.hasLiteral = false ∧ e = .refused (.badValue .worker d) := by
  unfold readWorker at h
  split at h
  case h_1 s =>
    obtain ⟨f, hs, rfl⟩ := mapError_error_iff.mp h
    exact .inl ⟨s, f, rfl, hs, rfl⟩
  case h_2 =>
    split at h
    case h_1 => cases h
    case h_2 => exact .inr (refuse_error he h)
  case h_3 => exact .inr (refuse_error he h)

theorem readMarkers_error (he : ¬ e.IsTold) (h : readMarkers d = .error e) :
    d.hasLiteral = false ∧ e = .refused (.badValue .markers d) := by
  unfold readMarkers at h
  split at h
  case h_1 =>
    split at h
    case h_1 =>
      split at h
      case isTrue => exact refuse_error he h
      case isFalse => cases h
    case h_2 => exact refuse_error he h
  case h_2 => exact refuse_error he h

theorem readLogLevel_error (he : ¬ e.IsTold) (h : readLogLevel d = .error e) :
    d.hasLiteral = false ∧ e = .refused (.badValue .logLevel d) := by
  unfold readLogLevel at h
  split at h
  case h_1 => cases h
  case h_2 => exact refuse_error he h

/-! ## Values that cannot be written are refused -/

theorem readTimeout_of_not_hasLiteral (h : d.hasLiteral = false) (hsize : ∀ n, d = .int n → n ≤ 0) :
    readTimeout d = refuse .timeout d := by
  cases d with
  | int n => exact if_pos (hsize n rfl)
  | float => cases h
  | _ => rfl

theorem readFamily_of_not_hasLiteral (h : d.hasLiteral = false) :
    readFamily d = refuse .family d := by
  cases d with
  | str => cases h
  | _ => rfl

theorem readWorker_of_not_hasLiteral (h : d.hasLiteral = false) :
    readWorker d = refuse .worker d := by
  cases d with
  | str => cases h
  | list ds =>
    cases hws : texts? ds with
    | some ws => cases h.symm.trans (haveLiterals_of_texts? hws)
    | none => simp only [readWorker, hws]
  | _ => rfl

theorem readMarkers_of_not_hasLiteral (h : d.hasLiteral = false) :
    readMarkers d = refuse .markers d := by
  cases d with
  | list ds =>
    cases hws : texts? ds with
    | some ws => cases h.symm.trans (haveLiterals_of_texts? hws)
    | none => simp only [readMarkers, hws]
  | _ => rfl

theorem readLogLevel_of_not_hasLiteral (h : d.hasLiteral = false) :
    readLogLevel d = refuse .logLevel d := by
  obtain ⟨c, cs, htext, hupper, hc⟩ := exists_text_eq_cons h
  have hnone : Log.Severity.all.find? (fun s ↦ s.name.toList = Text.upper d.text) = none := by
    rw [List.find?_eq_none]
    intro s _ hs
    have hname : s.name.toList.head? = some c := by
      rw [of_decide_eq_true hs, htext, Text.upper, List.flatMap_cons, hupper]
      rfl
    cases s <;> cases hname <;> cases hc
  rw [readLogLevel, hnone]

/-! ## Keys -/

theorem timeout_error_iff (he : ¬ e.IsTold) :
    setting es .timeout Client.defaultTimeout readTimeout = .error e ↔ Untold es .timeout e := by
  rw [setting_error_iff]
  constructor
  · rintro ⟨d, hd, h⟩
    rcases readTimeout_error he h with ⟨n, rfl, hn, hhuge, rfl⟩ | ⟨hlit, hsize, rfl⟩
    · exact .hugeTimeout hd hn hhuge
    · exact .badValue hd hlit fun _ ↦ hsize
  · rintro (⟨hd, hlit, hsize⟩ | ⟨hd, hn, hhuge⟩)
    · exact ⟨_, hd, readTimeout_of_not_hasLiteral hlit (hsize rfl)⟩
    · refine ⟨_, hd, ?_⟩
      rw [readTimeout, if_neg (by omega), hhuge]

theorem family_error_iff (he : ¬ e.IsTold) :
    setting es .family none (fun d ↦ some <$> readFamily d) = .error e ↔ Untold es .family e := by
  simp only [setting_error_iff, map_error_iff]
  constructor
  · rintro ⟨d, hd, h⟩
    obtain ⟨hlit, rfl⟩ := readFamily_error he h
    exact .badValue hd hlit nofun
  · rintro (⟨hd, hlit, -⟩)
    exact ⟨_, hd, readFamily_of_not_hasLiteral hlit⟩

theorem worker_error_iff (he : ¬ e.IsTold) :
    setting es .worker [] readWorker = .error e ↔ Untold es .worker e := by
  rw [setting_error_iff]
  constructor
  · rintro ⟨d, hd, h⟩
    rcases readWorker_error he h with ⟨s, f, rfl, hs, rfl⟩ | ⟨hlit, rfl⟩
    · exact .command hd hs
    · exact .badValue hd hlit nofun
  · rintro (⟨hd, hlit, -⟩ | _ | ⟨hd, hs⟩)
    · exact ⟨_, hd, readWorker_of_not_hasLiteral hlit⟩
    · exact ⟨_, hd, by rw [readWorker, hs]; rfl⟩

theorem markers_error_iff (he : ¬ e.IsTold) :
    setting es .markers Outcome.defaultMarkers readMarkers = .error e ↔ Untold es .markers e := by
  rw [setting_error_iff]
  constructor
  · rintro ⟨d, hd, h⟩
    obtain ⟨hlit, rfl⟩ := readMarkers_error he h
    exact .badValue hd hlit nofun
  · rintro (⟨hd, hlit, -⟩)
    exact ⟨_, hd, readMarkers_of_not_hasLiteral hlit⟩

theorem logLevel_error_iff (he : ¬ e.IsTold) :
    setting es .logLevel .warning readLogLevel = .error e ↔ Untold es .logLevel e := by
  rw [setting_error_iff]
  constructor
  · rintro ⟨d, hd, h⟩
    obtain ⟨hlit, rfl⟩ := readLogLevel_error he h
    exact .badValue hd hlit nofun
  · rintro (⟨hd, hlit, -⟩)
    exact ⟨_, hd, readLogLevel_of_not_hasLiteral hlit⟩

/-! ## Configurations -/

/-- Each option of a configuration without unknown keys is read under its own key. -/
theorem ofMapping_ok_iff {o : Options} :
    ofMapping es = .ok o ↔ unknownKeys es = [] ∧
      setting es .timeout Client.defaultTimeout readTimeout = .ok o.timeout ∧
      setting es .family none (fun d ↦ some <$> readFamily d) = .ok o.family ∧
      setting es .worker [] readWorker = .ok o.worker ∧
      setting es .markers Outcome.defaultMarkers readMarkers = .ok o.markers ∧
      setting es .logLevel .warning readLogLevel = .ok o.logLevel := by
  unfold ofMapping
  split
  case isTrue hunknown =>
    rw [Bool.not_eq_true', List.isEmpty_eq_false_iff] at hunknown
    constructor
    · intro h
      cases h
    · rintro ⟨hknown, -⟩
      exact absurd hknown hunknown
  case isFalse hknown =>
    rw [Bool.not_eq_true, Bool.not_eq_false', List.isEmpty_iff] at hknown
    simp only [bind_ok_iff, Except.ok.injEq]
    constructor
    · rintro ⟨t, ht, family, hfamily, worker, hworker, markers, hmarkers, level, hlevel, rfl⟩
      exact ⟨hknown, ht, hfamily, hworker, hmarkers, hlevel⟩
    · rintro ⟨-, ht, hfamily, hworker, hmarkers, hlevel⟩
      exact ⟨_, ht, _, hfamily, _, hworker, _, hmarkers, _, hlevel, rfl⟩

theorem ofMapping_error_iff (he : ¬ e.IsTold) : ofMapping es = .error e ↔ Breaks es e := by
  unfold ofMapping
  split
  case isTrue hunknown =>
    rw [Bool.not_eq_true', List.isEmpty_eq_false_iff] at hunknown
    constructor
    · intro h
      cases h
      by_contra hbreaks
      exact he (.refused fun k hk ↦ Bool.not_eq_false _ ▸ fun hlit ↦ hbreaks (.unknownKeys hk hlit))
    · rintro (_ | hreads)
      · rfl
      · exact absurd hreads.known hunknown
  case isFalse hknown =>
    rw [Bool.not_eq_true, Bool.not_eq_false', List.isEmpty_iff] at hknown
    simp only [bind_error_iff, timeout_error_iff he, family_error_iff he, worker_error_iff he,
      markers_error_iff he, logLevel_error_iff he, reduceCtorEq, and_false, exists_false, or_false]
    constructor
    · -- the keys are gone through in order; each adds to what is known of those before the next
      rintro (h | ⟨t, ht, h | ⟨family, hfamily, h | ⟨worker, hworker, h | ⟨markers, hmarkers, h⟩⟩⟩⟩)
      · exact .value ⟨hknown, by simp [Key.all]⟩ h
      · exact .value ⟨hknown, by simp [Key.all, Reads, ht]⟩ h
      · exact .value ⟨hknown, by simp [Key.all, Reads, ht, hfamily]⟩ h
      · exact .value ⟨hknown, by simp [Key.all, Reads, ht, hfamily, hworker]⟩ h
      · exact .value ⟨hknown, by simp [Key.all, Reads, ht, hfamily, hworker, hmarkers]⟩ h
    · intro hbreaks
      cases hbreaks with
      | unknownKeys hk =>
        rw [hknown] at hk
        cases hk
      | @value key e hreads h =>
        have hbefore {k : Key} (hk : k ∈ Key.all.takeWhile (· ≠ key)) : Reads es k :=
          hreads.before k hk
        cases key with
        | timeout => exact .inl h
        | family =>
          obtain ⟨t, ht⟩ : Reads es .timeout := hbefore (by decide)
          exact .inr ⟨t, ht, .inl h⟩
        | worker =>
          obtain ⟨t, ht⟩ : Reads es .timeout := hbefore (by decide)
          obtain ⟨f, hf⟩ : Reads es .family := hbefore (by decide)
          exact .inr ⟨t, ht, .inr ⟨f, hf, .inl h⟩⟩
        | markers =>
          obtain ⟨t, ht⟩ : Reads es .timeout := hbefore (by decide)
          obtain ⟨f, hf⟩ : Reads es .family := hbefore (by decide)
          obtain ⟨ws, hws⟩ : Reads es .worker := hbefore (by decide)
          exact .inr ⟨t, ht, .inr ⟨f, hf, .inr ⟨ws, hws, .inl h⟩⟩⟩
        | logLevel =>
          obtain ⟨t, ht⟩ : Reads es .timeout := hbefore (by decide)
          obtain ⟨f, hf⟩ : Reads es .family := hbefore (by decide)
          obtain ⟨ws, hws⟩ : Reads es .worker := hbefore (by decide)
          obtain ⟨ms, hms⟩ : Reads es .markers := hbefore (by decide)
          exact .inr ⟨t, ht, .inr ⟨f, hf, .inr ⟨ws, hws, .inr ⟨ms, hms, h⟩⟩⟩⟩

/-- What is not told of a configuration is that its reading breaks off. -/
theorem ofText_error_iff (he : ¬ e.IsTold) : ofText text = .error e ↔ BreaksOff text e := by
  unfold ofText
  cases hload : Yaml.load (Text.lineFeeds text) with
  | error f =>
    constructor
    · intro h
      cases h
      refine .unreadable ?_ hload
      rintro rfl
      exact he .malformed
    · rintro (⟨-, h⟩ | ⟨h, -⟩)
      · cases hload.symm.trans h
        rfl
      · cases hload.symm.trans h
  | ok d =>
    have heq : ofDatum d = .error e ↔ BreaksOff text e := by
      cases d with
      | mapping es =>
        refine (ofMapping_error_iff he).trans ⟨.mapping hload, ?_⟩
        rintro (⟨-, h⟩ | ⟨h, hes⟩)
        · cases hload.symm.trans h
        · cases hload.symm.trans h
          exact hes
      | _ =>
        constructor
        · intro h
          cases h <;> exact absurd (.refused fun _ hd ↦ absurd hd List.not_mem_nil) he
        · rintro (⟨-, h⟩ | ⟨h, -⟩) <;> cases hload.symm.trans h
    exact heq

end Options

end Nftables
