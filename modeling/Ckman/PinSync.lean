import Ckman.ManagementKeySync

/-!
# The synchronised change of the PIN

With a PIN-derived management key, a PIN change makes three changes on the
card: the PIN, the key derived from it with a fresh salt, and the salt in ADMIN
DATA. Every run applies a front part of them, so the only state that the old
and the new PIN cannot recover is the one between the last two.
-/
namespace Piv

open Host Interaction

variable {E σ : Type} {crates : Crates} {device : Device E σ} {view : σ → Card} {w u : World σ}

def derivedKey (crates : Crates) (pin salt : Bytes) : ManagementKey :=
  ⟨.tdes, (deriveManagementKey crates pin salt).val⟩

/-- The active management key is derived from this PIN and the stored salt. -/
def DerivedFrom (crates : Crates) (pin : Bytes) (card : Card) : Prop :=
  ∃ data salt, adminData crates card = .ok data ∧ data.salt = some salt ∧
    card.managementKey = derivedKey crates pin salt

/-- Whoever knows both PINs can still derive the active management key. -/
def Recoverable (crates : Crates) (oldPin newPin : Bytes) (card : Card) : Prop :=
  DerivedFrom crates oldPin card ∨ DerivedFrom crates newPin card

/-- With known records only the key is left to compare. -/
theorem derivedFrom_iff {card : Card} {data : PivmanData} {salt : Bytes}
    (hdata : adminData crates card = .ok data) (hsalt : data.salt = some salt) (pin : Bytes) :
    DerivedFrom crates pin card ↔ card.managementKey = derivedKey crates pin salt := by
  constructor
  · rintro ⟨data', salt', hdata', hsalt', hkey⟩
    rw [hdata] at hdata'
    cases hdata'
    rw [hsalt] at hsalt'
    cases hsalt'
    exact hkey
  · intro hkey
    exact ⟨data, salt, hdata, hsalt, hkey⟩

inductive PinChange (crates : Crates) (data : PivmanData) (newPin newSalt : Bytes) :
    List Mutation → Prop where
  | untouched : PinChange crates data newPin newSalt []
  | pin : PinChange crates data newPin newSalt [.changePin newPin]
  | key : PinChange crates data newPin newSalt
      [.changePin newPin, .setManagementKey (derivedKey crates newPin newSalt)]
  | salt {value : Bytes} :
      PivmanData.toValue crates.tlv { data with salt := some newSalt } = some value →
        PinChange crates data newPin newSalt
          [.changePin newPin, .setManagementKey (derivedKey crates newPin newSalt),
            .putData pivmanObjectId value]

section Commits

variable {T β : Type} {operation : Except Error (Operation T)} {m : Mutation}

/-- A change that is the last one of a run. -/
theorem commits_last (h : Acts device view operation (Commits m))
    {o : Option (Except (PivError E) T)}
    (hr : Fallible.Runs (environment device) (run operation) w o u) :
    (view u.card = view w.card ∧ ∀ t, o ≠ some (.ok t)) ∨ view u.card = (view w.card).apply m := by
  rcases h.run hr with ⟨e, rfl, rfl, -⟩ | ⟨o', rfl, ⟨hcard, hfailed⟩ | hcard⟩
  · exact .inl ⟨rfl, by simp⟩
  · refine .inl ⟨hcard, ?_⟩
    intro t ht
    rcases o' with _ | ⟨e | t'⟩ <;> cases ht
    exact hfailed t rfl
  · exact .inr hcard

/-- A change followed by the rest of a run: the run ends before the rest, with
the change applied or not, or the rest starts after the change. -/
theorem commits_bind (h : Acts device view operation (Commits m))
    {f : T → Fallible (Answer E) (PivError E) β} {o : Option (Except (PivError E) β)}
    (hr : Fallible.Runs (environment device) (run operation >>= f) w o u) :
    ((view u.card = view w.card ∨ view u.card = (view w.card).apply m) ∧ ∀ b, o ≠ some (.ok b)) ∨
      ∃ t v, view v.card = (view w.card).apply m ∧ Fallible.Runs (environment device) (f t) v o u := by
  have hends : ∀ {o' : Option (Except (PivError E) T)},
      Fallible.Runs (environment device) (run operation) w o' u →
        view u.card = view w.card ∨ view u.card = (view w.card).apply m := by
    intro o' hx
    rcases commits_last h hx with ⟨hcard, -⟩ | hcard
    · exact .inl hcard
    · exact .inr hcard
  rcases Fallible.bind_iff.mp hr with ⟨rfl, hx⟩ | ⟨e, rfl, hx⟩ | ⟨t, v, hx, hf⟩
  · exact .inl ⟨hends hx, by simp⟩
  · exact .inl ⟨hends hx, by simp⟩
  · rcases commits_last h hx with ⟨-, hfailed⟩ | hcard
    · exact absurd rfl (hfailed t)
    · exact .inr ⟨t, v, hcard, hf⟩

/-- A step that leaves the card alone, followed by the rest of a run. -/
theorem keeps_bind {p : Fallible (Answer E) (PivError E) T} {fail : PivError E → Prop}
    {post : T → Prop} {c : Card}
    (hp : Fallible.Holds (environment device) (fun w : World σ => view w.card = c) p fail post)
    {f : T → Fallible (Answer E) (PivError E) β} {o : Option (Except (PivError E) β)}
    (hw : view w.card = c)
    (hr : Fallible.Runs (environment device) (p >>= f) w o u) :
    (view u.card = c ∧ ∀ b, o ≠ some (.ok b)) ∨
      ∃ t v, post t ∧ view v.card = c ∧ Fallible.Runs (environment device) (f t) v o u := by
  rcases Fallible.bind_iff.mp hr with ⟨rfl, hx⟩ | ⟨e, rfl, hx⟩ | ⟨t, v, hx, hf⟩
  · exact .inl ⟨(hp w _ u hw hx).1, by simp⟩
  · exact .inl ⟨(hp w _ u hw hx).1, by simp⟩
  · obtain ⟨hcard, -, hpost⟩ := hp w _ v hw hx
    exact .inr ⟨t, v, (hpost t rfl).2, hcard, hf⟩

theorem keeps_holds (h : Acts device view operation Keeps) (c : Card) :
    Fallible.Holds (environment device) (fun w : World σ => view w.card = c) (run operation)
      (fun _ => True) (fun _ => True) := by
  refine Fallible.Holds.of_runs ?_
  intro w o u hw hr
  refine ⟨?_, by simp, by simp⟩
  rcases h.run hr with ⟨e, -, rfl, -⟩ | ⟨o', -, hcard⟩
  · exact hw
  · exact hcard.trans hw

end Commits

theorem readPivmanData_holds (h : Documented crates device view) (c : Card) :
    Fallible.Holds (environment device) (fun w : World σ => view w.card = c)
      (readPivmanData crates) PivError.Unreplaced (fun data => adminData crates c = .ok data) := by
  refine Fallible.Holds.of_runs ?_
  intro w o u hw hr
  obtain ⟨hinspects, hfail, hpost⟩ := readRecord_holds h w w o u (.refl view w) hr
  subst hw
  exact ⟨hinspects.card, hfail, fun a ha => (hpost a ha).2⟩

/-- A run that ended before the last change. -/
theorem pinChange_stopped (newSalt : Bytes) {data : PivmanData} {newPin : Bytes} {ms : List Mutation}
    {c d : Card} {o : Option (Except (PivError E) Unit)}
    (hms : PinChange crates data newPin newSalt ms) (hd : d = c.applyAll ms)
    (ho : ∀ t, o ≠ some (.ok t)) :
    ∃ newSalt ms, PinChange crates data newPin newSalt ms ∧ d = c.applyAll ms ∧
      (o = some (.ok ()) → ms.length = 3) :=
  ⟨newSalt, ms, hms, hd, fun hok => absurd hok (ho ())⟩

/-- Every run applies a front part of the changes, and all of them on success. -/
theorem changePinDerived_trace (h : Documented crates device view) {data : PivmanData}
    {salt oldPin newPin : Bytes} {old new : Pin} (hnew : new.bytes = newPin) {c : Card}
    (hw : view w.card = c) {o : Option (Except (PivError E) Unit)}
    (hr : Fallible.Runs (environment device)
      (changePinDerived crates data salt oldPin newPin old new) w o u) :
    ∃ newSalt ms, PinChange crates data newPin newSalt ms ∧ view u.card = c.applyAll ms ∧
      (o = some (.ok ()) → ms.length = 3) := by
  -- Nothing changes before the new key is ready.
  rcases keeps_bind (orDrive_holds _) hw hr with ⟨hu, ho⟩ | ⟨oldKey, v₁, -, hv₁, hr₁⟩
  · exact pinChange_stopped [] .untouched hu ho
  rcases keeps_bind (keeps_holds (h.authenticateManagementKey _) c) hv₁ hr₁ with
    ⟨hu, ho⟩ | ⟨-, v₂, -, hv₂, hr₂⟩
  · exact pinChange_stopped [] .untouched hu ho
  rcases keeps_bind (fill_holds 16) hv₂ hr₂ with ⟨hu, ho⟩ | ⟨newSalt, v₃, -, hv₃, hr₃⟩
  · exact pinChange_stopped [] .untouched hu ho
  rcases keeps_bind (orDrive_holds _) hv₃ hr₃ with ⟨hu, ho⟩ | ⟨newKey, v₄, hkey, hv₄, hr₄⟩
  · exact pinChange_stopped newSalt.val .untouched hu ho
  obtain rfl : newKey = derivedKey crates newPin newSalt.val := Crates.managementKey_eq hkey
  rcases commits_bind (h.changePin old new) hr₄ with ⟨hu | hu, ho⟩ | ⟨-, v₅, hv₅, hr₅⟩
  · exact pinChange_stopped newSalt.val .untouched (hu.trans hv₄) ho
  · rw [hv₄, hnew] at hu
    exact pinChange_stopped newSalt.val .pin hu ho
  rw [hv₄, hnew] at hv₅
  rcases keeps_bind (keeps_holds (h.verifyPin new) _) hv₅ hr₅ with ⟨hu, ho⟩ | ⟨-, v₆, -, hv₆, hr₆⟩
  · exact pinChange_stopped newSalt.val .pin hu ho
  rcases commits_bind (h.setManagementKey _ _ _) hr₆ with ⟨hu | hu, ho⟩ | ⟨-, v₇, hv₇, hr₇⟩
  · exact pinChange_stopped newSalt.val .pin (hu.trans hv₆) ho
  · rw [hv₆] at hu
    exact pinChange_stopped newSalt.val .key hu ho
  rw [hv₆] at hv₇
  rcases keeps_bind (unwrap_holds (fun _ => True) _) hv₇ hr₇ with
    ⟨hu, ho⟩ | ⟨value, v₈, hvalue, hv₈, hr₈⟩
  · exact pinChange_stopped newSalt.val .key hu ho
  rcases commits_last (h.writeObject _ _ _) hr₈ with ⟨hu, ho⟩ | hu
  · exact pinChange_stopped newSalt.val .key (hu.trans hv₈) ho
  · rw [hv₈] at hu
    exact ⟨newSalt.val, _, .salt hvalue, hu, fun _ => rfl⟩

/-- A PIN change of a card with a derived key is the derived one. -/
theorem changePinSynced_trace (h : Documented crates device view) {data : PivmanData}
    {salt oldPin newPin : Bytes} (hdata : adminData crates (view w.card) = .ok data)
    (hsalt : data.salt = some salt) {o : Option (Except (PivError E) Unit)}
    (hr : Fallible.Runs (environment device) (changePinSynced crates oldPin newPin) w o u) :
    ∃ newSalt ms, PinChange crates data newPin newSalt ms ∧
      view u.card = (view w.card).applyAll ms ∧ (o = some (.ok ()) → ms.length = 3) := by
  rcases keeps_bind (orDrive_holds _) rfl hr with ⟨hu, ho⟩ | ⟨old, v₁, -, hv₁, hr₁⟩
  · exact pinChange_stopped [] .untouched hu ho
  rcases keeps_bind (orDrive_holds _) hv₁ hr₁ with ⟨hu, ho⟩ | ⟨new, v₂, hnew, hv₂, hr₂⟩
  · exact pinChange_stopped [] .untouched hu ho
  rcases keeps_bind (readPivmanData_holds h _) hv₂ hr₂ with ⟨hu, ho⟩ | ⟨found, v₃, hfound, hv₃, hr₃⟩
  · exact pinChange_stopped [] .untouched hu ho
  rw [hdata] at hfound
  cases hfound
  rw [hsalt] at hr₃
  exact changePinDerived_trace h (Crates.pin_bytes hnew) hv₃ hr₃

/-- A successful PIN change read ADMIN DATA, and without a salt in it the PIN is
all that changed. -/
theorem changePinSynced_ok (h : Documented crates device view) {oldPin newPin : Bytes}
    (hr : Fallible.Runs (environment device) (changePinSynced crates oldPin newPin) w
      (some (.ok ())) u) :
    ∃ data, adminData crates (view w.card) = .ok data ∧
      (data.salt = none → view u.card = (view w.card).apply (.changePin newPin)) := by
  obtain ⟨old, v₁, hold, h₁⟩ := Fallible.bind_ok_iff.mp hr
  obtain ⟨-, rfl⟩ := orDrive_ok_iff.mp hold
  obtain ⟨new, v₂, hnew, h₂⟩ := Fallible.bind_ok_iff.mp h₁
  obtain ⟨hpin, rfl⟩ := orDrive_ok_iff.mp hnew
  obtain ⟨data, v₃, hread, h₃⟩ := Fallible.bind_ok_iff.mp h₂
  obtain ⟨hcard, -, hdata⟩ := readPivmanData_holds h (view v₂.card) v₂ _ v₃ rfl hread
  refine ⟨data, (hdata data rfl).2, ?_⟩
  intro hsalt
  rw [hsalt] at h₃
  have hchange := (run_ok (h.changePin old new) h₃).ok
  rw [hchange, hcard, Crates.pin_bytes hpin]

theorem pinChange_prefix_three {data : PivmanData} {newPin newSalt : Bytes} {ms : List Mutation}
    (hms : PinChange crates data newPin newSalt ms) (hlength : ms.length = 3) :
    ∃ value, PivmanData.toValue crates.tlv { data with salt := some newSalt } = some value ∧
      ms = [.changePin newPin, .setManagementKey (derivedKey crates newPin newSalt),
        .putData pivmanObjectId value] := by
  cases hms with
  | untouched => cases hlength
  | pin => cases hlength
  | key => cases hlength
  | salt hvalue => exact ⟨_, hvalue, rfl⟩

/-- With all changes applied, the stored salt is the one of the active key. -/
theorem derivedFrom_complete (h : crates.tlv.Documented) {data : PivmanData}
    {newPin newSalt value : Bytes} (card : Card)
    (hvalue : PivmanData.toValue crates.tlv { data with salt := some newSalt } = some value) :
    DerivedFrom crates newPin (card.applyAll [.changePin newPin,
      .setManagementKey (derivedKey crates newPin newSalt), .putData pivmanObjectId value]) :=
  ⟨_, newSalt, adminData_putData h hvalue _, rfl, rfl⟩

/-- A card whose key is derived from the default PIN and the stored salt. -/
def derivedStart : World Reference.Chip :=
  Reference.cardWith ⟨.tdes, Reference.oldDerivedKey.val⟩
    [(pivmanObjectId, Der.tlv 0x80 (Der.tlv 0x82 Reference.oldSalt))] 3

def derivedRecord : PivmanData := ⟨none, some Reference.oldSalt, none⟩

def examplePinChange (choices : List (Reference.Choice Unit)) :
    Option (Except (PivError Unit) Unit) × World Reference.Chip :=
  Reference.play Reference.knownAnswers choices
    (changePinSynced (Reference.crates Reference.knownAnswers) defaultPin Reference.newPin) derivedStart

/-- A successful PIN change ends with the key of the new PIN, and a run leaves
the card recoverable exactly when it was not cut off right after the key
replacement (or the new key happens to be derived from the stored salt too). -/
theorem changePinSynced_recoverable (h : Documented crates device view) {data : PivmanData}
    {salt oldPin newPin : Bytes} (hdata : adminData crates (view w.card) = .ok data)
    (hsalt : data.salt = some salt)
    (hkey : (view w.card).managementKey = derivedKey crates (view w.card).pin salt)
    {o : Option (Except (PivError E) Unit)}
    (hr : Fallible.Runs (environment device) (changePinSynced crates oldPin newPin) w o u) :
    (o = some (.ok ()) → DerivedFrom crates newPin (view u.card)) ∧
      (Recoverable crates (view w.card).pin newPin (view u.card) ↔
        ∀ applied key, (view u.card).applied = (view w.card).applied ++ applied →
          applied.getLast? = some (.setManagementKey key) →
            key = derivedKey crates (view w.card).pin salt ∨ key = derivedKey crates newPin salt) := by
  obtain ⟨newSalt, ms, hms, hu, hok⟩ := changePinSynced_trace h hdata hsalt hr
  have happlied : (view u.card).applied = (view w.card).applied ++ ms := by
    rw [hu, Card.applied_applyAll]
  refine ⟨?_, ?_⟩
  · intro ho
    obtain ⟨value, hvalue, rfl⟩ := pinChange_prefix_three hms (hok ho)
    rw [hu]
    exact derivedFrom_complete h.tlv _ hvalue
  · have hlast : (∀ applied key, (view u.card).applied = (view w.card).applied ++ applied →
        applied.getLast? = some (.setManagementKey key) →
          key = derivedKey crates (view w.card).pin salt ∨ key = derivedKey crates newPin salt) ↔
        ∀ key, ms.getLast? = some (.setManagementKey key) →
          key = derivedKey crates (view w.card).pin salt ∨ key = derivedKey crates newPin salt := by
      constructor
      · intro hall key hlast
        exact hall ms key happlied hlast
      · intro hall applied key happlied' hlast
        rw [happlied] at happlied'
        obtain rfl := List.append_cancel_left happlied'
        exact hall key hlast
    rw [hlast, hu]
    cases hms with
    | untouched =>
      refine iff_of_true (.inl ⟨data, salt, hdata, hsalt, hkey⟩) ?_
      simp
    | pin =>
      refine iff_of_true (.inl ⟨data, salt, hdata, hsalt, hkey⟩) ?_
      simp
    | key =>
      -- The salt of the new key is not on the card yet.
      have hrecord : adminData crates ((view w.card).applyAll [.changePin newPin,
          .setManagementKey (derivedKey crates newPin newSalt)]) = .ok data := hdata
      have hactive : ((view w.card).applyAll [.changePin newPin,
          .setManagementKey (derivedKey crates newPin newSalt)]).managementKey =
            derivedKey crates newPin newSalt := rfl
      rw [Recoverable, derivedFrom_iff hrecord hsalt, derivedFrom_iff hrecord hsalt, hactive]
      simp
    | salt hvalue =>
      refine iff_of_true (.inr (derivedFrom_complete h.tlv _ hvalue)) ?_
      simp

theorem derivedStart_record :
    adminData (Reference.crates Reference.knownAnswers) derivedStart.card.card = .ok derivedRecord := by
  decide

/-- With working exchanges the example ends with the key of the new PIN. -/
theorem changePinSynced_recoverable_complete :
    DerivedFrom (Reference.crates Reference.knownAnswers) Reference.newPin
      (examplePinChange (List.replicate 18 (.works 1))).2.card.card := by
  have hsucceeds : (examplePinChange (List.replicate 18 (.works 1))).1 = some (.ok ()) := by
    decide +kernel
  have hkey : derivedStart.card.card.managementKey =
      derivedKey (Reference.crates Reference.knownAnswers) derivedStart.card.card.pin Reference.oldSalt := by
    decide
  exact (changePinSynced_recoverable Reference.documented derivedStart_record rfl hkey
    (Reference.play_runs Reference.knownAnswers hsucceeds)).1 rfl

/-- The exchange fails right after the key replacement: the salt of the new key
is lost, and neither PIN derives the key from the stored one. -/
theorem changePinSynced_strands :
    DerivedFrom (Reference.crates Reference.knownAnswers) derivedStart.card.card.pin
        derivedStart.card.card ∧
      Fallible.Runs (environment (Reference.device Reference.knownAnswers))
        (changePinSynced (Reference.crates Reference.knownAnswers) derivedStart.card.card.pin
          Reference.newPin) derivedStart (some (.error (.drive (.transport ()))))
        (examplePinChange (List.replicate 14 (.works 1) ++ [.cut ()])).2 ∧
      ¬ Recoverable (Reference.crates Reference.knownAnswers) derivedStart.card.card.pin
        Reference.newPin (examplePinChange (List.replicate 14 (.works 1) ++ [.cut ()])).2.card.card := by
  have hrecord : adminData (Reference.crates Reference.knownAnswers)
      (examplePinChange (List.replicate 14 (.works 1) ++ [.cut ()])).2.card.card = .ok derivedRecord := by
    decide +kernel
  refine ⟨?_, ?_, ?_⟩
  · rw [derivedFrom_iff derivedStart_record rfl]
    decide
  · exact Reference.play_runs Reference.knownAnswers (by decide +kernel)
  · rw [Recoverable, derivedFrom_iff hrecord rfl, derivedFrom_iff hrecord rfl]
    decide +kernel

end Piv
