import TrajectoryEvents.Configuration
import TrajectoryEvents.Proofs.Detector.Meaning
import TrajectoryEvents.Proofs.Json.Reading

/-!
# Loading settings

Settings that are read from an object are validated as settings that are given directly are, and
with the same result. What is validated are the values of the three parameters in the object, in
whatever order and among whatever other members they stand, with the standard value for one that is
missing. An object that gives a parameter twice, or a value of another type, has no settings.

## Main definitions

* `Json.Gives`: what an object says of a field that may be missing.
* `Json.FailsOnForm`: a reading that does not fail for any other reason than the form of the value.
* `Settings.GivenBy`: the settings in an object, before validation.
* `Settings.Misstated`: a mistake because of which there are none.
* `Settings.FirstOffending`: the error that names the first parameter which is not usable.

## Main results

* `Json.gives_iff`: a field is read as what the object says of it.
* `Settings.decodeRaw_object_eq_ok_iff`: settings are decoded as the object gives them.
* `Settings.read_object`: a text that is an object is read as these settings are validated.
-/

namespace TrajectoryEvents

/-! ### Several values -/

/-- A computation on several values answers if it answers on each of them. -/
theorem mapM_eq_ok_iff {ε α β : Type} {f : α → Except ε β} {as : List α} {bs : List β} :
    as.mapM f = .ok bs ↔ List.Forall₂ (fun a b => f a = .ok b) as bs := by
  induction as generalizing bs with
  | nil => exact ⟨fun h => Except.ok.inj h ▸ .nil, fun h => by cases h; rfl⟩
  | cons a as ih =>
    rw [List.mapM_cons, List.forall₂_cons_left_iff]
    constructor
    · intro h
      obtain ⟨b, hb, h⟩ := exists_of_bind_eq_ok h
      obtain ⟨bs, hbs, h⟩ := exists_of_bind_eq_ok h
      exact ⟨b, bs, hb, ih.1 hbs, (Except.ok.inj h).symm⟩
    · rintro ⟨b, bs, hb, hbs, rfl⟩
      rw [hb, ih.2 hbs]
      rfl

namespace Json

/-! ### Fields of an object -/

section Fields

variable {α : Type} {members before after : List (JsonText × Json)} {name : String} {value : Json}

/-- A name of several members. -/
def Repeated (members : List (JsonText × Json)) (name : String) : Prop :=
  ∃ before first between second after,
    members = before ++ (some name, first) :: (between ++ (some name, second) :: after)

private theorem filter_name_eq_nil (h : ∀ value, (some name, value) ∉ members) :
    members.filter (·.1 == some name) = [] := by
  rw [List.filter_eq_nil_iff]
  rintro ⟨text, value⟩ hmem heq
  obtain rfl : text = some name := by simpa using heq
  exact h value hmem

theorem member?_of_missing (h : ∀ value, (some name, value) ∉ members) :
    member? members name = .ok none := by
  simp [member?, filter_name_eq_nil h]

theorem member?_of_once (hmembers : members = before ++ (some name, value) :: after)
    (honce : ∀ other, (some name, other) ∉ before ++ after) :
    member? members name = .ok (some value) := by
  have hbefore := filter_name_eq_nil fun other h => honce other (List.mem_append_left _ h)
  have hafter := filter_name_eq_nil fun other h => honce other (List.mem_append_right _ h)
  simp [member?, hmembers, List.filter_append, hbefore, hafter]

/-- A field is missing, or it is the value of the only member of its name, or its name is
repeated. -/
theorem member?_cases (members : List (JsonText × Json)) (name : String) :
    (member? members name = .ok none ∧ ∀ value, (some name, value) ∉ members) ∨
      (∃ before value after, member? members name = .ok (some value) ∧
        members = before ++ (some name, value) :: after ∧
        ∀ other, (some name, other) ∉ before ++ after) ∨
      member? members name = .error .malformed ∧ Repeated members name := by
  unfold member?
  -- none, one or several members pass the filter
  split
  next h =>
    rw [List.filter_eq_nil_iff] at h
    exact .inl ⟨rfl, fun value hmem => h _ hmem (by simp)⟩
  next text value h =>
    obtain ⟨before, after, rfl, hbefore, htext, hafter⟩ := List.filter_eq_cons_iff.1 h
    obtain rfl : text = some name := by simpa using htext
    rw [List.filter_eq_nil_iff] at hafter
    refine .inr (.inl ⟨before, value, after, rfl, rfl, fun other hmem => ?_⟩)
    rcases List.mem_append.1 hmem with hmem | hmem
    · exact hbefore _ hmem (by simp)
    · exact hafter _ hmem (by simp)
  next hnil hone =>
    refine .inr (.inr ⟨rfl, ?_⟩)
    match hfilter : members.filter (·.1 == some name) with
    | [] => exact absurd hfilter hnil
    | [(text, value)] => exact absurd hfilter (hone text value)
    | (text₁, first) :: (text₂, second) :: rest =>
      obtain ⟨before, others, rfl, -, htext₁, hothers⟩ := List.filter_eq_cons_iff.1 hfilter
      obtain ⟨between, after, rfl, -, htext₂, -⟩ := List.filter_eq_cons_iff.1 hothers
      obtain rfl : text₁ = some name := by simpa using htext₁
      obtain rfl : text₂ = some name := by simpa using htext₂
      exact ⟨before, first, between, second, after, rfl⟩

theorem member?_of_repeated (h : Repeated members name) :
    member? members name = .error .malformed := by
  obtain ⟨before, first, between, second, after, rfl⟩ := h
  -- both members pass the filter, so that it leaves neither none nor one
  have hlength : 2 ≤ ((before ++ (some name, first) ::
      (between ++ (some name, second) :: after)).filter (·.1 == some name)).length := by
    simp only [← List.countP_eq_length_filter, List.countP_append, List.countP_cons,
      beq_self_eq_true, if_true]
    omega
  unfold member?
  split
  next h => simp [h] at hlength
  next h => simp [h] at hlength
  next => rfl

/-- The fields of an object whose member names are texts are looked up one by one. -/
theorem fields_object (hnames : ∀ m ∈ members, m.1 ≠ none) (names : List String) :
    fields names (.object members) = names.mapM (member? members) := by
  change (if members.any (·.1.isNone) = true then _ else _) = _
  rw [if_neg]
  simp only [List.any_eq_true, not_exists, not_and, Option.isNone_iff_eq_none]
  exact hnames

theorem fields_object_of_mem_none {value : Json} (h : (none, value) ∈ members)
    (names : List String) : fields names (.object members) = .error .malformed := by
  change (if members.any (·.1.isNone) = true then _ else _) = _
  rw [if_pos]
  simpa using ⟨value, h⟩

/-- What an object says of a field: nothing, so that the standard value holds, or a value that is
readable, in the only member of that name. -/
inductive Gives (members : List (JsonText × Json)) (name : String) (standard : α)
    (Reads : Json → α → Prop) : α → Prop
  | missing (h : ∀ value, (some name, value) ∉ members) : Gives members name standard Reads standard
  | once {before after : List (JsonText × Json)} {value : Json} {a : α}
    (hmembers : members = before ++ (some name, value) :: after)
    (honce : ∀ other, (some name, other) ∉ before ++ after) (ha : Reads value a) :
    Gives members name standard Reads a

/-- A field that may be missing is read as what the object says of it. -/
theorem gives_iff [JsonForm α] {standard a : α} {Reads : Json → α → Prop}
    (hreads : ∀ value a, JsonForm.decode value = .ok a ↔ Reads value a) :
    Gives members name standard Reads a ↔
      ∃ field, member? members name = .ok field ∧ withDefault standard field = .ok a := by
  constructor
  · rintro (h | ⟨hmembers, honce, ha⟩)
    · exact ⟨none, member?_of_missing h, rfl⟩
    · exact ⟨some _, member?_of_once hmembers honce, (hreads _ _).2 ha⟩
  · rintro ⟨field, hfield, ha⟩
    rcases member?_cases members name with ⟨h, hmissing⟩ | ⟨before, value, after, h, hmembers,
      honce⟩ | ⟨h, -⟩
    · obtain rfl := Except.ok.inj (h.symm.trans hfield)
      obtain rfl := Except.ok.inj ha
      exact .missing hmissing
    · obtain rfl := Except.ok.inj (h.symm.trans hfield)
      exact .once hmembers honce ((hreads _ _).1 ha)
    · rw [h] at hfield
      cases hfield

/-- A mistake in a field: its name is repeated, or a value of it is not readable. -/
def Misgives (members : List (JsonText × Json)) (name : String) (Reads : Json → α → Prop) : Prop :=
  Repeated members name ∨ ∃ value, (some name, value) ∈ members ∧ ∀ a, ¬ Reads value a

/-- A field with a mistake has no value. -/
theorem Misgives.not_gives {standard a : α} {Reads : Json → α → Prop}
    (h : Misgives members name Reads) : ¬ Gives members name standard Reads a := by
  rintro (hmissing | ⟨hmembers, honce, ha⟩)
  · rcases h with ⟨before, first, between, second, after, rfl⟩ | ⟨value, hmem, -⟩
    · exact hmissing first (by simp)
    · exact hmissing value hmem
  · rcases h with hrepeated | ⟨value, hmem, hvalue⟩
    · have htwice := (member?_of_once hmembers honce).symm.trans (member?_of_repeated hrepeated)
      cases htwice
    · rw [hmembers, List.mem_append, List.mem_cons, or_left_comm, ← List.mem_append] at hmem
      -- the value that cannot be read is the one of the only member, or there is another member
      rcases hmem with heq | hmem
      · obtain rfl := (Prod.mk.inj heq).2
        exact hvalue _ ha
      · exact honce value hmem

/-- A field has a value, or there is a mistake in it. -/
theorem gives_or_misgives (members : List (JsonText × Json)) (name : String) (standard : α)
    (Reads : Json → α → Prop) :
    (∃ a, Gives members name standard Reads a) ∨ Misgives members name Reads := by
  rcases member?_cases members name with ⟨-, hmissing⟩ | ⟨before, value, after, -, hmembers,
    honce⟩ | ⟨-, hrepeated⟩
  · exact .inl ⟨standard, .missing hmissing⟩
  · by_cases hvalue : ∃ a, Reads value a
    · obtain ⟨a, ha⟩ := hvalue
      exact .inl ⟨a, .once hmembers honce ha⟩
    · exact .inr (.inr ⟨value, by simp [hmembers], not_exists.1 hvalue⟩)
  · exact .inr (.inl hrepeated)

end Fields

/-! ### Refusals for the form of a value -/

section Form

variable {α β : Type}

/-- A reading that fails only for the form of the value. -/
def FailsOnForm (x : Except ReadError α) : Prop := ∀ e, x = .error e → e = .malformed

theorem FailsOnForm.ok (a : α) : FailsOnForm (.ok a) := nofun

theorem FailsOnForm.malformed : FailsOnForm (.error .malformed : Except ReadError α) :=
  fun _ h => (Except.error.inj h).symm

theorem FailsOnForm.bind {x : Except ReadError α} {k : α → Except ReadError β}
    (hx : FailsOnForm x) (hk : ∀ a, FailsOnForm (k a)) : FailsOnForm (x >>= k) := by
  cases x with
  | error e => exact fun e' h => hx e' (congrArg Except.error (Except.error.inj h))
  | ok a => exact hk a

theorem FailsOnForm.mapM {f : α → Except ReadError β} (hf : ∀ a, FailsOnForm (f a))
    (as : List α) : FailsOnForm (as.mapM f) := by
  induction as with
  | nil => exact .ok []
  | cons a as ih =>
    rw [List.mapM_cons]
    exact (hf a).bind fun b => ih.bind fun bs => .ok _

theorem failsOnForm_expect (a : Option α) : FailsOnForm (expect a) := by
  cases a with
  | none => exact .malformed
  | some a => exact .ok a

theorem failsOnForm_member? (members : List (JsonText × Json)) (name : String) :
    FailsOnForm (member? members name) := by
  unfold member?
  split
  · exact .ok _
  · exact .ok _
  · exact .malformed

theorem failsOnForm_fields (names : List String) (value : Json) :
    FailsOnForm (fields names value) := by
  unfold fields
  split
  · split
    · exact .malformed
    · exact .mapM (failsOnForm_member? _) names
  · split
    · exact .malformed
    · exact .ok _
  · exact .malformed

theorem failsOnForm_withDefault [JsonForm α] {standard : α} {field : Option Json}
    (h : ∀ value, FailsOnForm (JsonForm.decode value : Except ReadError α)) :
    FailsOnForm (withDefault standard field) := by
  cases field with
  | none => exact .ok standard
  | some value => exact h value

theorem failsOnForm_decode_float (value : Json) :
    FailsOnForm (JsonForm.decode value : Except ReadError Float) := by
  cases value with
  | number numeral => exact failsOnForm_expect _
  | null | bool | string | array | object => exact .malformed

theorem failsOnForm_decode_count (value : Json) :
    FailsOnForm (JsonForm.decode value : Except ReadError UInt64) := by
  cases value with
  | number numeral =>
    refine (failsOnForm_expect numeral.toNat?).bind fun n => ?_
    split
    · exact .ok _
    · exact .malformed
  | null | bool | string | array | object => exact .malformed

end Form

/-! ### Values of the parameters -/

/-- A number in the range of the doubles, and the double nearest to it. -/
def IsDuration (value : Json) (duration : Float) : Prop :=
  ∃ numeral, value = .number numeral ∧ numeral.toFloat? = some duration

/-- An integer literal in the range of the counts, and the count that it denotes. -/
def IsCount (value : Json) (count : UInt64) : Prop :=
  ∃ numeral, value = .number numeral ∧ numeral.toNat? = some count.toNat

@[simp]
theorem expect_eq_ok_iff {α : Type} {o : Option α} {a : α} : expect o = .ok a ↔ o = some a := by
  cases o <;> simp [expect]

theorem decode_eq_ok_iff_isDuration (value : Json) (duration : Float) :
    JsonForm.decode value = .ok duration ↔ value.IsDuration duration := by
  constructor
  · intro h
    cases value with
    | number numeral => exact ⟨numeral, rfl, expect_eq_ok_iff.1 h⟩
    | null | bool | string | array | object => cases h
  · rintro ⟨numeral, rfl, hx⟩
    exact expect_eq_ok_iff.2 hx

theorem decode_eq_ok_iff_isCount (value : Json) (count : UInt64) :
    JsonForm.decode value = .ok count ↔ value.IsCount count := by
  constructor
  · intro h
    cases value with
    | number numeral =>
      refine ⟨numeral, rfl, ?_⟩
      obtain ⟨n, hn, h⟩ := exists_of_bind_eq_ok h
      rw [expect_eq_ok_iff] at hn
      split at h
      next hlt =>
        obtain rfl := Except.ok.inj h
        rw [hn, UInt64.toNat_ofNat_of_lt' hlt]
      next => cases h
    | null | bool | string | array | object => cases h
  · rintro ⟨numeral, rfl, hx⟩
    change (do
      let n ← expect numeral.toNat?
      if n < UInt64.size then return UInt64.ofNat n else throw ReadError.malformed :
        Except ReadError UInt64) = .ok count
    rw [hx]
    change (if count.toNat < UInt64.size then .ok (UInt64.ofNat count.toNat) else
      .error ReadError.malformed : Except ReadError UInt64) = .ok count
    rw [if_pos count.toNat_lt_size, UInt64.ofNat_toNat]

end Json

namespace Settings

open Json

/-- The first parameter that cannot steer a search, in the order in which they are declared, and its
value. A count can only be zero, and is reported as the duration zero. -/
inductive FirstOffending (s : Settings) : EventError → Prop
  | maxCheckInterval (h : ¬ IsUsable s.maxCheckInterval) :
    FirstOffending s (.invalidSetting .maxCheckInterval s.maxCheckInterval)
  | threshold (hspacing : IsUsable s.maxCheckInterval) (h : ¬ IsUsable s.threshold) :
    FirstOffending s (.invalidSetting .threshold s.threshold)
  | maxIterationCount (hspacing : IsUsable s.maxCheckInterval) (hthreshold : IsUsable s.threshold)
    (h : s.maxIterationCount = 0) : FirstOffending s (.invalidSetting .maxIterationCount 0.0)

/-- Validation reports the first offending parameter. -/
theorem validate_eq_error_iff {s : Settings} {e : EventError} :
    s.validate = .error e ↔ s.FirstOffending e := by
  unfold validate
  constructor
  · intro h
    split at h
    next h1 => cases h; exact .maxCheckInterval h1
    next h1 =>
      split at h
      next h2 => cases h; exact .threshold (Decidable.not_not.1 h1) h2
      next h2 =>
        split at h
        next h3 =>
          cases h
          exact .maxIterationCount (Decidable.not_not.1 h1) (Decidable.not_not.1 h2) h3
        next => cases h
  · rintro (h | ⟨h1, h⟩ | ⟨h1, h2, h⟩)
    · rw [if_pos h]
    · rw [if_neg (not_not.2 h1), if_pos h]
    · rw [if_neg (not_not.2 h1), if_neg (not_not.2 h2), if_pos h]

variable {members : List (JsonText × Json)} {s : Settings}

/-- The settings in an object, before validation. -/
structure GivenBy (members : List (JsonText × Json)) (s : Settings) : Prop where
  /-- The name of every member is a text. -/
  names : ∀ m ∈ members, m.1 ≠ none
  maxCheckInterval : Gives members Setting.maxCheckInterval.name standard.maxCheckInterval
    IsDuration s.maxCheckInterval
  threshold : Gives members Setting.threshold.name standard.threshold IsDuration s.threshold
  maxIterationCount : Gives members Setting.maxIterationCount.name standard.maxIterationCount
    IsCount s.maxIterationCount

/-- Settings are decoded as the object gives them. -/
theorem decodeRaw_object_eq_ok_iff : decodeRaw (.object members) = .ok s ↔ GivenBy members s := by
  constructor
  · intro h
    obtain ⟨fs, hfields, h⟩ := exists_of_bind_eq_ok h
    have hnames : ∀ m ∈ members, m.1 ≠ none := by
      rintro ⟨text, value⟩ hmem rfl
      rw [fields_object_of_mem_none hmem] at hfields
      cases hfields
    -- the three names are looked up in turn, and then the three values are read
    rw [fields_object hnames, mapM_eq_ok_iff] at hfields
    obtain _ | ⟨hspacing, _ | ⟨hthreshold, _ | ⟨hcount, ⟨⟩⟩⟩⟩ := hfields
    obtain ⟨x, hx, h⟩ := exists_of_bind_eq_ok h
    obtain ⟨y, hy, h⟩ := exists_of_bind_eq_ok h
    obtain ⟨n, hn, h⟩ := exists_of_bind_eq_ok h
    obtain rfl := Except.ok.inj h
    exact ⟨hnames, (gives_iff decode_eq_ok_iff_isDuration).2 ⟨_, hspacing, hx⟩,
      (gives_iff decode_eq_ok_iff_isDuration).2 ⟨_, hthreshold, hy⟩,
      (gives_iff decode_eq_ok_iff_isCount).2 ⟨_, hcount, hn⟩⟩
  · rintro ⟨hnames, hspacing, hthreshold, hcount⟩
    obtain ⟨spacing, hspacing, hx⟩ := (gives_iff decode_eq_ok_iff_isDuration).1 hspacing
    obtain ⟨threshold, hthreshold, hy⟩ := (gives_iff decode_eq_ok_iff_isDuration).1 hthreshold
    obtain ⟨count, hcount, hz⟩ := (gives_iff decode_eq_ok_iff_isCount).1 hcount
    have hfields : fields [Setting.maxCheckInterval.name, Setting.threshold.name,
        Setting.maxIterationCount.name] (.object members) = .ok [spacing, threshold, count] := by
      rw [fields_object hnames, mapM_eq_ok_iff]
      exact .cons hspacing (.cons hthreshold (.cons hcount .nil))
    rw [decodeRaw, hfields]
    change (do
      let x ← withDefault standard.maxCheckInterval spacing
      let y ← withDefault standard.threshold threshold
      let n ← withDefault standard.maxIterationCount count
      return Settings.mk x y n) = _
    rw [hx, hy, hz]
    rfl

/-- A mistake because of which an object has no settings: a member whose name is no text, a repeated
parameter, or a parameter whose value is not of its type. -/
inductive Misstated (members : List (JsonText × Json)) : Prop
  | name {value : Json} (h : (none, value) ∈ members)
  | maxCheckInterval (h : Misgives members Setting.maxCheckInterval.name IsDuration)
  | threshold (h : Misgives members Setting.threshold.name IsDuration)
  | maxIterationCount (h : Misgives members Setting.maxIterationCount.name IsCount)

/-- An object with a mistake has no settings. -/
theorem Misstated.not_givenBy (h : Misstated members) : ¬ GivenBy members s := by
  intro hs
  cases h with
  | name h => exact hs.names _ h rfl
  | maxCheckInterval h => exact h.not_gives hs.maxCheckInterval
  | threshold h => exact h.not_gives hs.threshold
  | maxIterationCount h => exact h.not_gives hs.maxIterationCount

/-- An object has settings, or there is a mistake in it. -/
theorem givenBy_or_misstated (members : List (JsonText × Json)) :
    (∃ s, GivenBy members s) ∨ Misstated members := by
  by_cases hnames : ∀ m ∈ members, m.1 ≠ none
  · rcases gives_or_misgives members Setting.maxCheckInterval.name standard.maxCheckInterval
      IsDuration with ⟨x, hx⟩ | h
    · rcases gives_or_misgives members Setting.threshold.name standard.threshold
        IsDuration with ⟨y, hy⟩ | h
      · rcases gives_or_misgives members Setting.maxIterationCount.name
          standard.maxIterationCount IsCount with ⟨n, hn⟩ | h
        · exact .inl ⟨⟨x, y, n⟩, hnames, hx, hy, hn⟩
        · exact .inr (.maxIterationCount h)
      · exact .inr (.threshold h)
    · exact .inr (.maxCheckInterval h)
  · push Not at hnames
    obtain ⟨⟨text, value⟩, hmem, rfl⟩ := hnames
    exact .inr (.name hmem)

/-- Settings are decoded, or the value is refused for its form. -/
theorem failsOnForm_decodeRaw (value : Json) : FailsOnForm (decodeRaw value) := by
  refine (failsOnForm_fields _ value).bind fun fs => ?_
  split
  · exact (failsOnForm_withDefault failsOnForm_decode_float).bind fun x =>
      (failsOnForm_withDefault failsOnForm_decode_float).bind fun y =>
        (failsOnForm_withDefault failsOnForm_decode_count).bind fun n => .ok _
  · exact .malformed

/-- An object with a mistake is refused for its form. -/
theorem Misstated.decodeRaw_eq (h : Misstated members) :
    decodeRaw (.object members) = .error .malformed := by
  cases hraw : decodeRaw (.object members) with
  | error e => rw [failsOnForm_decodeRaw _ e hraw]
  | ok s => exact absurd (decodeRaw_object_eq_ok_iff.1 hraw) h.not_givenBy

/-- Settings in a text are validated as settings that are given directly are. Let a text be an
object.

* If it has settings, it is read if these are valid, and as them. Otherwise it is refused with the
  error that validation reports, which names the first offending parameter.
* If there is a mistake in it, it is refused for its form.

Either it has settings, or there is a mistake in it. -/
theorem read_object {text : String} (htext : Json.Denotes text (.object members)) :
    (∀ s, GivenBy members s →
      (∀ t, JsonForm.read text = .ok t ↔ s.validate = .ok t) ∧
      ∀ e, (JsonForm.read text : Except ReadError Settings) = .error e ↔
        ∃ cause, e = .refused cause ∧ s.validate = .error cause ∧ s.FirstOffending cause) ∧
    (Misstated members →
      (JsonForm.read text : Except ReadError Settings) = .error .malformed) ∧
    ((∃ s, GivenBy members s) ∨ Misstated members) := by
  have hread : (JsonForm.read text : Except ReadError Settings) =
      decodeRaw (.object members) >>= fun s => s.validate.mapError .refused :=
    JsonForm.read_of_denotes htext
  refine ⟨fun s hs => ?_, fun h => ?_, givenBy_or_misstated members⟩
  · rw [decodeRaw_object_eq_ok_iff.2 hs] at hread
    change _ = s.validate.mapError ReadError.refused at hread
    -- what is left is the validation of the settings that the object gives
    rw [hread]
    cases hvalidate : s.validate with
    | ok t' => exact ⟨fun t => by simp [Except.mapError], fun e => by simp [Except.mapError]⟩
    | error cause =>
      refine ⟨fun t => by simp [Except.mapError], fun e => ?_⟩
      have hcause := validate_eq_error_iff.1 hvalidate
      constructor
      · intro he
        obtain rfl := Except.error.inj he
        exact ⟨cause, rfl, rfl, hcause⟩
      · rintro ⟨cause', rfl, h, -⟩
        obtain rfl := Except.error.inj h
        rfl
  · rw [hread, h.decodeRaw_eq]
    rfl

/-- Among other members, a negative threshold is what validation reports. -/
theorem read_object_negative_threshold :
    Json.Denotes "\x7b\"note\":[],\"threshold\":-0.5\x7d"
      (.object [(some "note", .array []), (some "threshold", .number ⟨true, [0], [5], none⟩)]) ∧
    GivenBy [(some "note", .array []), (some "threshold", .number ⟨true, [0], [5], none⟩)]
      ⟨600.0, -0.5, 100⟩ ∧
    (JsonForm.read "\x7b\"note\":[],\"threshold\":-0.5\x7d" : Except ReadError Settings) =
      .error (.refused (.invalidSetting .threshold (-0.5))) := by
  have hform : (Json.object [(some "note", .array []),
      (some "threshold", .number ⟨true, [0], [5], none⟩)]).WellFormed := by
    have hnumber : (Json.number ⟨true, [0], [5], none⟩).WellFormed :=
      .number ⟨by decide, by simp, nofun⟩
    refine .object ?_
    simp [hnumber, WellFormed.array]
  have htext : Json.Denotes "\x7b\"note\":[],\"threshold\":-0.5\x7d"
      (.object [(some "note", .array []), (some "threshold", .number ⟨true, [0], [5], none⟩)]) := by
    have hchars := denotes_text hform
    rwa [show Json.text _ = "\x7b\"note\":[],\"threshold\":-0.5\x7d" by decide +kernel] at hchars
  have hs : GivenBy [(some "note", .array []), (some "threshold", .number ⟨true, [0], [5], none⟩)]
      ⟨600.0, -0.5, 100⟩ := {
    names := by simp
    maxCheckInterval := .missing (by simp [Setting.name])
    threshold := .once (show _ = [_] ++ _ from rfl) (by simp [Setting.name])
      ⟨_, rfl, by decide +kernel⟩
    maxIterationCount := .missing (by simp [Setting.name]) }
  exact ⟨htext, hs, (((read_object htext).1 _ hs).2 _).2 ⟨_, rfl, by decide +kernel,
    .threshold (by decide +kernel) (by decide +kernel)⟩⟩

end Settings

end TrajectoryEvents
