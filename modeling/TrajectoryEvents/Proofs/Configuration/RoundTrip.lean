import TrajectoryEvents.Proofs.Configuration.Loading
import TrajectoryEvents.Proofs.Detector.Construction
import TrajectoryEvents.Proofs.Epoch.Duration

/-!
# Values of a configuration are read back

Settings, epochs, recorded events and states are read back from the texts that they are written as,
and nothing of them is lost: a number that is read back has the sign and the digits of the double
that was written, and a count is read back up to its largest value.

A double is written as a number only if it is finite, so that an epoch, the epoch of an event or a
state, and its components have to be finite. For settings there is nothing to ask: those that the
operations produce are valid, so that both durations are finite, and are accepted again.

## Main definitions

* `JsonForm.Lossless`: a value that is had back from its JSON form.

## Main results

* `Json.fields_written`: a record is read from the object that it is written as.
* `JsonForm.lossless_float`, `JsonForm.lossless_count`, `JsonForm.lossless_list`: numbers and lists
  are lossless.
* `Settings.lossless`, `Epoch.lossless`, `RecordedEvent.lossless`, `TrajectoryState.lossless`: so
  are the values of a configuration.
* `configuration_round_trip`: they are read back from their texts.
-/

namespace TrajectoryEvents

namespace Json

/-! ### Records -/

/-- The members that a record is written with, under names that are texts. -/
def written (members : List (String × Json)) : List (JsonText × Json) :=
  members.map fun m => (some m.1, m.2)

/-- A member is found by its name if no two names are the same. -/
theorem member?_written {members : List (String × Json)} (h : (members.map Prod.fst).Nodup)
    {m : String × Json} (hm : m ∈ members) :
    member? (written members) m.1 = .ok (some m.2) := by
  obtain ⟨before, after, rfl⟩ := List.append_of_mem hm
  have hmembers : written (before ++ m :: after) =
      written before ++ (some m.1, m.2) :: written after := by
    simp [written]
  -- another member of this name would repeat it
  refine member?_of_once hmembers fun other hother => ?_
  rw [List.map_append, List.map_cons, List.nodup_middle, List.nodup_cons, ← List.map_append] at h
  rw [written, written, ← List.map_append] at hother
  obtain ⟨m', hm', heq⟩ := List.mem_map.1 hother
  obtain ⟨hname, -⟩ := Prod.mk.inj heq
  exact h.1 (Option.some.inj hname ▸ List.mem_map_of_mem hm')

/-- A record is read from the object that it is written as. -/
theorem fields_written (members : List (String × Json)) (h : (members.map Prod.fst).Nodup) :
    fields (members.map Prod.fst) (.object (written members)) =
      .ok (members.map (some ∘ Prod.snd)) := by
  have hnames : ∀ m ∈ written members, m.1 ≠ none := by
    intro m hm
    obtain ⟨m', -, rfl⟩ := List.mem_map.1 hm
    exact Option.some_ne_none _
  rw [fields_object hnames, mapM_eq_ok_iff, List.forall₂_map_left_iff, List.forall₂_map_right_iff,
    List.forall₂_same]
  exact fun m hm => member?_written h hm

end Json

namespace JsonForm

open Json

variable {α : Type} [JsonForm α]

/-- A value that is had back from its JSON form, which can be written and read. -/
structure Lossless (a : α) : Prop where
  wellFormed : (encode a).WellFormed
  decode_encode : decode (encode a) = .ok a

/-- A lossless value is read back from its text. -/
theorem Lossless.read_write {a : α} (h : Lossless a) : read (write a) = .ok a :=
  JsonForm.read_write h.wellFormed h.decode_encode

theorem lossless_float {x : Float} (hx : x.isFinite = true) : Lossless x := by
  -- for want of a number, a double that is not finite would be written as null
  have hform : encode x = .number (NumberStyle.json.numeral x) := if_pos hx
  constructor
  · rw [hform]
    exact .number (NumberStyle.json.wellFormed_numeral x)
  · rw [hform, decode_eq_ok_iff_isDuration]
    exact ⟨_, rfl, NumberStyle.json.toFloat?_numeral (by decide) hx⟩

theorem lossless_count (n : UInt64) : Lossless n where
  wellFormed := .number (Numeral.wellFormed_ofNat _)
  decode_encode := (decode_eq_ok_iff_isCount _ n).2 ⟨_, rfl, Numeral.toNat?_ofNat _⟩

theorem lossless_bool (b : Bool) : Lossless b := ⟨.bool b, rfl⟩

theorem lossless_list {as : List α} (h : ∀ a ∈ as, Lossless a) : Lossless as where
  wellFormed := by
    refine .array fun item hitem => ?_
    obtain ⟨a, ha, rfl⟩ := List.mem_map.1 hitem
    exact (h a ha).wellFormed
  decode_encode := by
    change (as.map encode).mapM decode = .ok as
    rw [mapM_eq_ok_iff, List.forall₂_map_left_iff, List.forall₂_same]
    exact fun a ha => (h a ha).decode_encode

end JsonForm

open Json JsonForm

theorem Epoch.lossless {t : Epoch} (ht : t.IsFinite) : Lossless t where
  wellFormed := (lossless_float ht).wellFormed
  decode_encode := by
    change Epoch.mk <$> decode (encode t.seconds) = .ok t
    rw [(lossless_float ht).decode_encode]
    rfl

theorem RecordedEvent.lossless {e : RecordedEvent} (he : e.epoch.IsFinite) : Lossless e where
  wellFormed := by
    refine .object ?_
    simp [(Epoch.lossless he).wellFormed, (lossless_bool e.increasing).wellFormed]
  decode_encode := by
    have hfields : fields ["epoch", "increasing"] (encode e) =
        .ok [some (encode e.epoch), some (encode e.increasing)] :=
      fields_written [("epoch", _), ("increasing", _)] (by simp)
    change (fields ["epoch", "increasing"] (encode e) >>= _) = .ok e
    rw [hfields]
    change (do
      let t ← decode (encode e.epoch)
      let b ← decode (encode e.increasing)
      return RecordedEvent.mk t b) = Except.ok e
    rw [(Epoch.lossless he).decode_encode, (lossless_bool _).decode_encode]
    rfl

/-- A column is read as the components that it was written for, since their number agrees. -/
theorem TrajectoryState.decodeColumn_encodeColumn {components : List Float}
    (h : ∀ x ∈ components, x.isFinite = true) :
    decodeColumn (encodeColumn components) = .ok components := by
  have hlist : Lossless components := lossless_list fun x hx => lossless_float (h x hx)
  change (do
    let xs : List Float ← decode (encode components)
    if (Numeral.ofNat components.length).toNat? = some xs.length then return xs
    else throw ReadError.malformed) = _
  rw [hlist.decode_encode]
  -- the number is the length of the list that has been read
  exact if_pos (Numeral.toNat?_ofNat _)

theorem TrajectoryState.lossless {s : TrajectoryState} (hs : s.epoch.IsFinite)
    (h : ∀ x ∈ s.components, x.isFinite = true) : Lossless s where
  wellFormed := by
    have hlist : Lossless s.components := lossless_list fun x hx => lossless_float (h x hx)
    have hcolumn : (encodeColumn s.components).WellFormed := by
      refine .array ?_
      simp [hlist.wellFormed, WellFormed.null, WellFormed.number (Numeral.wellFormed_ofNat _)]
    refine .object ?_
    simp [(Epoch.lossless hs).wellFormed, hcolumn]
  decode_encode := by
    have hfields : fields ["epoch", "y"] (encode s) =
        .ok [some (encode s.epoch), some (encodeColumn s.components)] :=
      fields_written [("epoch", _), ("y", _)] (by simp)
    change (fields ["epoch", "y"] (encode s) >>= _) = .ok s
    rw [hfields]
    change (do
      let t ← decode (encode s.epoch)
      let components ← decodeColumn (encodeColumn s.components)
      return TrajectoryState.mk t components) = Except.ok s
    rw [(Epoch.lossless hs).decode_encode, decodeColumn_encodeColumn h]
    rfl

/-- Valid settings are lossless: their durations are finite, and validation accepts them again. -/
theorem Settings.lossless {s : Settings} (hs : s.Valid) : Lossless s where
  wellFormed := by
    refine .object ?_
    simp [(lossless_float hs.maxCheckInterval.1).wellFormed,
      (lossless_float hs.threshold.1).wellFormed, (lossless_count _).wellFormed]
  decode_encode := by
    have hfields : fields [Setting.maxCheckInterval.name, Setting.threshold.name,
        Setting.maxIterationCount.name] (encode s) =
        .ok [some (encode s.maxCheckInterval), some (encode s.threshold),
          some (encode s.maxIterationCount)] :=
      fields_written [(Setting.maxCheckInterval.name, _), (Setting.threshold.name, _),
        (Setting.maxIterationCount.name, _)] (by simp [Setting.name])
    have hraw : decodeRaw (encode s) = .ok s := by
      rw [decodeRaw, hfields]
      change (do
        let x ← decode (encode s.maxCheckInterval)
        let y ← decode (encode s.threshold)
        let n ← decode (encode s.maxIterationCount)
        return Settings.mk x y n) = Except.ok s
      rw [(lossless_float hs.maxCheckInterval.1).decode_encode,
        (lossless_float hs.threshold.1).decode_encode, (lossless_count _).decode_encode]
      rfl
    -- the settings that are decoded still have to be validated
    change (decodeRaw (encode s) >>= fun s => s.validate.mapError ReadError.refused) = .ok s
    rw [hraw]
    change s.validate.mapError ReadError.refused = .ok s
    rw [validate_eq_ok_iff.2 ⟨hs, rfl⟩]
    rfl

/-- The values of a configuration are read back from their texts, and are the values that were
written. This holds of all settings that the operations produce; of every finite epoch; of every
event that is recorded at a finite epoch; and of every state with a finite epoch and with finite
components, however many there are. -/
theorem configuration_round_trip {ι κ : Type} :
    (∀ s : Settings, Constructible (.settings s : Product ι κ) → read (write s) = .ok s) ∧
    (∀ t : Epoch, t.IsFinite → read (write t) = .ok t) ∧
    (∀ e : RecordedEvent, e.epoch.IsFinite → read (write e) = .ok e) ∧
    ∀ s : TrajectoryState, s.epoch.IsFinite → (∀ x ∈ s.components, x.isFinite = true) →
      read (write s) = .ok s := by
  refine ⟨fun s hs => ?_, fun t ht => ?_, fun e he => ?_, fun s hepoch hcomponents => ?_⟩
  · exact (Settings.lossless hs.sound).read_write
  · exact (Epoch.lossless ht).read_write
  · exact (RecordedEvent.lossless he).read_write
  · exact (TrajectoryState.lossless hepoch hcomponents).read_write

/-- Among what is read back are the largest count, the negative zero, the least subnormal and the
largest double. -/
theorem configuration_round_trip_extremes :
    read (write ({ Settings.standard with maxIterationCount := 18446744073709551615 } : Settings)) =
      .ok { Settings.standard with maxIterationCount := 18446744073709551615 } ∧
    read (write (⟨-0.0⟩ : Epoch)) = .ok (⟨-0.0⟩ : Epoch) ∧
    read (write (⟨⟨5e-324⟩, true⟩ : RecordedEvent)) = .ok (⟨⟨5e-324⟩, true⟩ : RecordedEvent) ∧
    read (write (⟨⟨0.0⟩, []⟩ : TrajectoryState)) = .ok (⟨⟨0.0⟩, []⟩ : TrajectoryState) ∧
    read (write (⟨⟨0.0⟩, [-0.0, 5e-324, 1.7976931348623157e308]⟩ : TrajectoryState)) =
      .ok (⟨⟨0.0⟩, [-0.0, 5e-324, 1.7976931348623157e308]⟩ : TrajectoryState) := by
  obtain ⟨hsettings, hepoch, hevent, hstate⟩ := configuration_round_trip (ι := Unit) (κ := Unit)
  have hconstructible : Constructible (.settings
      { Settings.standard with maxIterationCount := 18446744073709551615 } : Product Unit Unit) :=
    .withMaxIterationCount .standard (Settings.validate_eq_ok_iff.2 ⟨by decide +kernel, rfl⟩)
  exact ⟨hsettings _ hconstructible, hepoch _ (by decide +kernel), hevent _ (by decide +kernel),
    hstate _ (by decide +kernel) (by decide +kernel),
    hstate _ (by decide +kernel) (by decide +kernel)⟩

end TrajectoryEvents
