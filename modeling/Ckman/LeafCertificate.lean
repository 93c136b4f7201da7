import Ckman.Attestation
import Ckman.Pem
import Mathlib.Data.List.Perm.Basic

/-!
# The leaf of a certificate bundle

`leaf_certificate` picks the certificate whose subject no other certificate in
the bundle names as its issuer. The order of the bundle makes no difference.
-/
namespace Pkcs12

open Host
open Pem (KeyError)
open Attestation (Certificate)

/-- `x509_cert::Certificate::from_der`, and `to_der` of a name. -/
structure NameCrates where
  certificate : Bytes → Option Certificate
  nameDer : X509.Name → Option Bytes

variable (crates : NameCrates)

def certNames (der : Bytes) : Except KeyError (Bytes × Bytes) := do
  let cert ← okOr (crates.certificate der) .encoding
  let subject ← okOr (crates.nameDer cert.tbsCertificate.subject) .encoding
  let issuer ← okOr (crates.nameDer cert.tbsCertificate.issuer) .encoding
  pure (subject, issuer)

def unissued (names : List (Bytes × Bytes)) : (Bytes × Bytes) × Nat → Bool
  | ((subject, _), i) => !names.zipIdx.any fun ((_, issuer), j) => i ≠ j && issuer = subject

def leafs (names : List (Bytes × Bytes)) : List Nat :=
  (names.zipIdx.filter (unissued names)).map (·.2)

def leafCertificate (certificates : List Bytes) : Except KeyError Nat :=
  if certificates.length = 1 then .ok 0
  else do
    let names ← certificates.mapM (certNames crates)
    match leafs names with
    | [leaf] => .ok leaf
    | _ => .error .ambiguousCertificates

variable {crates}

def only {α : Type} (candidates : List α) : Except KeyError α :=
  match candidates with
  | [leaf] => .ok leaf
  | _ => .error .ambiguousCertificates

section Only

variable {α β : Type} {l l' : List α} {a : α}

theorem only_eq_ok_iff : only l = .ok a ↔ l = [a] := by
  rcases l with _ | ⟨b, _ | ⟨c, l⟩⟩ <;> simp [only]

theorem only_eq_error {e : KeyError} (h : only l = .error e) : e = .ambiguousCertificates := by
  rcases l with _ | ⟨b, _ | ⟨c, l⟩⟩
  · cases h
    rfl
  · cases h
  · cases h
    rfl

theorem only_map (f : α → β) : only (l.map f) = (only l).map f := by
  rcases l with _ | ⟨b, _ | ⟨c, l⟩⟩ <;> rfl

theorem only_perm (h : l.Perm l') : only l = only l' := by
  cases hl : only l with
  | ok a =>
    rw [only_eq_ok_iff] at hl
    subst hl
    rw [← List.singleton_perm.mp h]
    rfl
  | error e =>
    cases hl' : only l' with
    | ok a =>
      rw [only_eq_ok_iff] at hl'
      subst hl'
      rw [List.perm_singleton.mp h] at hl
      cases hl
    | error e' => rw [only_eq_error hl, only_eq_error hl']

end Only

section Leafs

variable {name : Bytes → Bytes × Bytes} {certs certs' : List Bytes} {i : Nat}

/-- `name` gives the subject and the issuer of every certificate in the list. -/
def Parsed (crates : NameCrates) (name : Bytes → Bytes × Bytes) (certs : List Bytes) : Prop :=
  ∀ der ∈ certs, certNames crates der = .ok (name der)

/-- The subject of the certificate at `i` is not the issuer of any other. -/
def EndEntityAt (name : Bytes → Bytes × Bytes) (certs : List Bytes) (i : Nat) : Prop :=
  ∃ cert, certs[i]? = some cert ∧
    ∀ j other, j ≠ i → certs[j]? = some other → (name other).2 ≠ (name cert).1

theorem Parsed.mapM (h : Parsed crates name certs) :
    certs.mapM (certNames crates) = .ok (certs.map name) := by
  induction certs with
  | nil => rfl
  | cons cert certs ih =>
    rw [List.mapM_cons, h cert List.mem_cons_self, ih fun der hder => h der (List.mem_cons_of_mem _ hder)]
    rfl

theorem Parsed.perm (h : Parsed crates name certs) (hp : certs'.Perm certs) :
    Parsed crates name certs' := fun der hder => h der (hp.mem_iff.mp hder)

theorem unissued_iff {cert : Bytes} (hcert : certs[i]? = some cert) :
    unissued (certs.map name) (name cert, i) = true ↔ EndEntityAt name certs i := by
  simp only [unissued, EndEntityAt, hcert, Bool.not_eq_true', List.any_eq_false, Bool.and_eq_true,
    decide_eq_true_eq, not_and, Prod.forall, List.mem_zipIdx_iff_getElem?, List.getElem?_map,
    Option.map_eq_some_iff, Option.some.injEq, exists_eq_left']
  constructor
  · intro h j other hj hother
    exact h (name other).1 (name other).2 j ⟨other, hother, rfl⟩ hj.symm
  · rintro h subject issuer j ⟨other, hother, hname⟩ hj heq
    exact h j other hj.symm hother (by rw [hname]; exact heq)

theorem mem_leafs_iff : i ∈ leafs (certs.map name) ↔ EndEntityAt name certs i := by
  simp only [leafs, List.mem_map, List.mem_filter, List.zipIdx_map, Prod.exists, Prod.map_apply, id_eq,
    List.mem_zipIdx_iff_getElem?, Prod.mk.injEq]
  constructor
  · rintro ⟨subject, issuer, k, ⟨⟨cert, k', hcert, hname, rfl⟩, hun⟩, rfl⟩
    rw [← hname] at hun
    exact (unissued_iff hcert).mp hun
  · intro h
    obtain ⟨cert, hcert, -⟩ := id h
    exact ⟨(name cert).1, (name cert).2, i, ⟨⟨cert, i, hcert, rfl, rfl⟩, (unissued_iff hcert).mpr h⟩, rfl⟩

theorem leafs_nodup (names : List (Bytes × Bytes)) : (leafs names).Nodup := by
  refine List.Nodup.sublist ((List.filter_sublist (l := names.zipIdx)).map Prod.snd) ?_
  rw [List.zipIdx_map_snd]
  exact List.nodup_range'

/-- A search for the leaf is a search for the only candidate, also in a list
of one certificate, which the code returns without parsing it. -/
theorem leafCertificate_eq (h : Parsed crates name certs) :
    leafCertificate crates certs = only (leafs (certs.map name)) := by
  unfold leafCertificate
  split
  · rename_i hlength
    obtain ⟨cert, rfl⟩ := List.length_eq_one_iff.mp hlength
    symm
    rw [only_eq_ok_iff]
    have halone : unissued [name cert] (name cert, 0) = true := by simp [unissued]
    simp [leafs, List.filter_cons_of_pos halone]
  · rw [h.mapM]
    change (match leafs (certs.map name) with | [leaf] => _ | _ => _) = _
    rcases leafs (certs.map name) with _ | ⟨leaf, _ | ⟨second, others⟩⟩ <;> rfl

/-- No certificate of the list but this one has its subject as issuer. -/
def isLeaf (name : Bytes → Bytes × Bytes) (certs : List Bytes) (cert : Bytes) : Bool :=
  !(certs.erase cert).any fun other => (name other).2 = (name cert).1

theorem isLeaf_perm (hp : certs'.Perm certs) (cert : Bytes) :
    isLeaf name certs' cert = isLeaf name certs cert := by
  rw [isLeaf, isLeaf, (hp.erase cert).any_eq]

/-- Erasing a certificate by its place or by its content leaves the same others. -/
theorem endEntityAt_iff {cert : Bytes} (hcert : certs[i]? = some cert) :
    EndEntityAt name certs i ↔ isLeaf name certs cert = true := by
  obtain ⟨hi, hget⟩ := List.getElem?_eq_some_iff.mp hcert
  have hperm : (certs.eraseIdx i).Perm (certs.erase cert) := by
    refine (List.perm_cons cert).mp ?_
    calc
      (cert :: certs.eraseIdx i).Perm certs := by
        have := List.getElem_cons_eraseIdx_perm hi
        rwa [hget] at this
      List.Perm certs (cert :: certs.erase cert) :=
        List.perm_cons_erase (List.mem_of_getElem? hcert)
  rw [isLeaf, ← hperm.any_eq]
  simp only [Bool.not_eq_true', List.any_eq_false, decide_eq_true_eq, List.mem_eraseIdx_iff_getElem?,
    EndEntityAt, hcert, Option.some.injEq, exists_eq_left']
  constructor
  · rintro h other ⟨j, hj, hother⟩
    exact h j other hj hother
  · intro h j other hj hother
    exact h other ⟨j, hj, hother⟩

/-- The candidates as certificates do not mention their places. -/
theorem leafs_certificates :
    (leafs (certs.map name)).map (certs[·]?) = (certs.filter (isLeaf name certs)).map some := by
  have hplace : ∀ place ∈ certs.zipIdx, certs[place.2]? = some place.1 := fun place hplace =>
    List.mem_zipIdx_iff_getElem?.mp hplace
  have hfilter : ∀ place ∈ certs.zipIdx, (unissued (certs.map name) ∘ Prod.map name id) place =
      (isLeaf name certs ∘ Prod.fst) place := by
    intro place hp
    rw [Bool.eq_iff_iff]
    exact (unissued_iff (hplace place hp)).trans (endEntityAt_iff (hplace place hp))
  calc
    (leafs (certs.map name)).map (certs[·]?)
        = (certs.zipIdx.filter (isLeaf name certs ∘ Prod.fst)).map fun place => certs[place.2]? := by
      rw [leafs, List.zipIdx_map, List.filter_map, List.filter_congr hfilter, List.map_map,
        List.map_map]
      rfl
    _ = (certs.zipIdx.filter (isLeaf name certs ∘ Prod.fst)).map (some ∘ Prod.fst) :=
      List.map_congr_left fun place hp => hplace place (List.mem_of_mem_filter hp)
    _ = (certs.filter (isLeaf name certs)).map some := by
      rw [← List.map_map, ← List.filter_map, List.zipIdx_map_fst]

/-- The order of the bundle makes no difference to the certificate found. -/
theorem leafCertificate_perm (h : Parsed crates name certs) (hp : certs'.Perm certs) :
    (leafCertificate crates certs').map (certs'[·]?) = (leafCertificate crates certs).map (certs[·]?) := by
  rw [leafCertificate_eq h, leafCertificate_eq (h.perm hp), ← only_map, ← only_map,
    leafs_certificates, leafs_certificates]
  refine only_perm (List.Perm.map some ?_)
  rw [List.filter_congr fun cert _ => isLeaf_perm hp cert]
  exact hp.filter _

theorem leafCertificate_ok_iff (h : Parsed crates name certs) :
    leafCertificate crates certs = .ok i ↔
      EndEntityAt name certs i ∧ ∀ j, EndEntityAt name certs j → j = i := by
  rw [leafCertificate_eq h, only_eq_ok_iff]
  simp only [← mem_leafs_iff]
  constructor
  · intro hone
    rw [hone]
    exact ⟨List.mem_singleton_self i, fun j => List.mem_singleton.mp⟩
  · rintro ⟨hi, hunique⟩
    have hperm : (leafs (certs.map name)).Perm [i] := by
      rw [List.perm_ext_iff_of_nodup (leafs_nodup _) (by simp)]
      intro j
      rw [List.mem_singleton]
      exact ⟨hunique j, fun hj => hj ▸ hi⟩
    exact List.perm_singleton.mp hperm

theorem leafCertificate_error_iff (h : Parsed crates name certs) {e : KeyError} :
    leafCertificate crates certs = .error e ↔
      e = .ambiguousCertificates ∧ ¬ ∃! i, EndEntityAt name certs i := by
  cases hleaf : leafCertificate crates certs with
  | ok i =>
    have hone := (leafCertificate_ok_iff h).mp hleaf
    simp only [reduceCtorEq, false_iff, not_and, not_not]
    intro _
    exact ⟨i, hone⟩
  | error e' =>
    have he : e' = .ambiguousCertificates := by
      rw [leafCertificate_eq h] at hleaf
      exact only_eq_error hleaf
    have hnone : ¬ ∃! i, EndEntityAt name certs i := by
      rintro ⟨i, hone⟩
      rw [(leafCertificate_ok_iff h).mpr hone] at hleaf
      cases hleaf
    rw [he]
    constructor
    · intro heq
      cases heq
      exact ⟨rfl, hnone⟩
    · rintro ⟨rfl, -⟩
      rfl

/-- A chain from its end entity up: distinct subjects, every certificate issued
by the next, and the last by itself or by a name outside the list. -/
structure IssuedInTurn (name : Bytes → Bytes × Bytes) (certs : List Bytes) : Prop where
  distinct : (certs.map fun cert => (name cert).1).Nodup
  issued : ∀ i cert next, certs[i]? = some cert → certs[i + 1]? = some next →
    (name cert).2 = (name next).1
  top : ∀ i cert, certs[i]? = some cert → certs[i + 1]? = none →
    (name cert).2 = (name cert).1 ∨ ∀ other ∈ certs, (name other).1 ≠ (name cert).2

theorem IssuedInTurn.subject_inj (h : IssuedInTurn name certs) {j : Nat} {cert other : Bytes}
    (hcert : certs[i]? = some cert) (hother : certs[j]? = some other)
    (heq : (name cert).1 = (name other).1) : i = j := by
  have hi : i < (certs.map fun cert => (name cert).1).length := by
    rw [List.length_map]
    exact (List.getElem?_eq_some_iff.mp hcert).1
  refine (List.getElem?_inj hi h.distinct).mp ?_
  rw [List.getElem?_map, List.getElem?_map, hcert, hother, Option.map_some, Option.map_some, heq]

/-- The first certificate of a chain is its only end entity. -/
theorem IssuedInTurn.endEntityAt_iff (h : IssuedInTurn name certs) (hne : certs ≠ []) :
    EndEntityAt name certs i ↔ i = 0 := by
  constructor
  · rintro ⟨cert, hcert, hother⟩
    cases i with
    | zero => rfl
    | succ i =>
      -- the certificate before it is issued by it
      have hi := (List.getElem?_eq_some_iff.mp hcert).1
      have hbefore : certs[i]? = some certs[i] := List.getElem?_eq_getElem (by omega)
      exact absurd (h.issued i certs[i] cert hbefore hcert) (hother i certs[i] (by omega) hbefore)
  · rintro rfl
    obtain ⟨leaf, rest, rfl⟩ := List.exists_cons_of_ne_nil hne
    refine ⟨leaf, rfl, ?_⟩
    intro j other hj hother hissuer
    cases hnext : (leaf :: rest)[j + 1]? with
    | some next =>
      have hsame : (name next).1 = (name leaf).1 := by
        rw [← h.issued j other next hother hnext, hissuer]
      have := h.subject_inj (i := j + 1) (j := 0) hnext rfl hsame
      omega
    | none =>
      rcases h.top j other hother hnext with hself | houtside
      · exact hj (h.subject_inj (i := j) (j := 0) hother rfl (hself.symm.trans hissuer))
      · exact houtside leaf List.mem_cons_self hissuer.symm

/-- `leaf_certificate` on a list of certificates that parse: the order makes no
difference, a chain has its end entity as leaf, and the call fails exactly if
there is not one certificate that issues no other. -/
theorem leafCertificate_leaf (h : Parsed crates name certs) :
    (∀ i, leafCertificate crates certs = .ok i → ∃ leaf, certs[i]? = some leaf) ∧
    (∀ certs', certs'.Perm certs → (leafCertificate crates certs').map (certs'[·]?) =
      (leafCertificate crates certs).map (certs[·]?)) ∧
    (∀ leaf issuers, IssuedInTurn name (leaf :: issuers) → certs.Perm (leaf :: issuers) →
      ∃ i, leafCertificate crates certs = .ok i ∧ certs[i]? = some leaf) ∧
    (∀ e, leafCertificate crates certs = .error e ↔
      e = .ambiguousCertificates ∧ ¬ ∃! i, EndEntityAt name certs i) := by
  refine ⟨?_, fun certs' => leafCertificate_perm h, ?_, fun e => leafCertificate_error_iff h⟩
  · intro i hok
    obtain ⟨leaf, hleaf, -⟩ := ((leafCertificate_ok_iff h).mp hok).1
    exact ⟨leaf, hleaf⟩
  · intro leaf issuers hchain hperm
    have hsorted : leafCertificate crates (leaf :: issuers) = .ok 0 := by
      rw [leafCertificate_ok_iff (h.perm hperm.symm)]
      simp only [hchain.endEntityAt_iff (List.cons_ne_nil leaf issuers), imp_self, implies_true, and_self]
    have hsame := leafCertificate_perm (h.perm hperm.symm) hperm
    rw [hsorted] at hsame
    cases hleaf : leafCertificate crates certs with
    | error e =>
      rw [hleaf] at hsame
      cases hsame
    | ok i =>
      rw [hleaf] at hsame
      exact ⟨i, rfl, Except.ok.inj hsame⟩

end Leafs

namespace Bundle

open Attestation.Fixture

def rootName : Bytes := ofHex 11 0x3018311630140603550403 ++ [12, 13] ++ asBytes "Test PIV Root"

def issuerName : Bytes := ofHex 11 0x301d311b30190603550403 ++ [12, 18] ++ asBytes "Test PIV F9 Issuer"

def leafName : Bytes :=
  ofHex 11 0x3025312330210603550403 ++ [12, 26] ++ asBytes "CanoKey PIV Attestation 9a"

def nameDer (subject : X509.Name) : Option Bytes :=
  if subject = rootCert.tbsCertificate.subject then some rootName
  else if subject = issuerCert.tbsCertificate.subject then some issuerName
  else if subject = leafCert.tbsCertificate.subject then some leafName
  else none

def nameCrates : NameCrates where
  certificate := testCrates.certificate
  nameDer := nameDer

def names (der : Bytes) : Bytes × Bytes :=
  if der = rootDer then (rootName, rootName)
  else if der = issuerDer then (issuerName, rootName)
  else (leafName, issuerName)

theorem rootDer_length : rootDer.length = 327 := by simp [rootDer, ofHex]

theorem issuerDer_length : issuerDer.length = 334 := by simp [issuerDer, ofHex]

theorem leafDer_length : leafDer.length = 348 := by simp [leafDer, ofHex]

theorem der_ne {der other : Bytes} {m n : Nat} (hder : der.length = m) (hother : other.length = n)
    (h : m ≠ n) : der ≠ other := by
  rintro rfl
  exact h (hder.symm.trans hother)

theorem issuerDer_ne_rootDer : issuerDer ≠ rootDer := der_ne issuerDer_length rootDer_length (by decide)

theorem leafDer_ne_rootDer : leafDer ≠ rootDer := der_ne leafDer_length rootDer_length (by decide)

theorem leafDer_ne_issuerDer : leafDer ≠ issuerDer := der_ne leafDer_length issuerDer_length (by decide)

theorem subjectDistinct : issuerCert.tbsCertificate.subject ≠ rootCert.tbsCertificate.subject ∧
    leafCert.tbsCertificate.subject ≠ rootCert.tbsCertificate.subject ∧
    leafCert.tbsCertificate.subject ≠ issuerCert.tbsCertificate.subject := by
  decide

theorem nameDistinct : [leafName, issuerName, rootName].Nodup := by decide

theorem names_rootDer : names rootDer = (rootName, rootName) := if_pos rfl

theorem names_issuerDer : names issuerDer = (issuerName, rootName) := by
  rw [names, if_neg issuerDer_ne_rootDer, if_pos rfl]

theorem names_leafDer : names leafDer = (leafName, issuerName) := by
  rw [names, if_neg leafDer_ne_rootDer, if_neg leafDer_ne_issuerDer]

theorem nameDer_root : nameDer rootCert.tbsCertificate.subject = some rootName := by
  rw [nameDer, if_pos rfl]

theorem nameDer_issuer : nameDer issuerCert.tbsCertificate.subject = some issuerName := by
  rw [nameDer, if_neg subjectDistinct.1, if_pos rfl]

theorem nameDer_leaf : nameDer leafCert.tbsCertificate.subject = some leafName := by
  rw [nameDer, if_neg subjectDistinct.2.1, if_neg subjectDistinct.2.2, if_pos rfl]

/-- A certificate of the chain whose subject and issuer are subjects of the chain. -/
theorem certNames_eq {der subject issuer : Bytes} {cert : Attestation.Certificate}
    (signer : Attestation.Certificate) (hcert : testCrates.certificate der = some cert)
    (hsigner : cert.tbsCertificate.issuer = signer.tbsCertificate.subject)
    (hsubject : nameDer cert.tbsCertificate.subject = some subject)
    (hissuer : nameDer signer.tbsCertificate.subject = some issuer) :
    certNames nameCrates der = .ok (subject, issuer) := by
  have hparse : nameCrates.certificate der = some cert := hcert
  have hfirst : nameCrates.nameDer cert.tbsCertificate.subject = some subject := hsubject
  have hsecond : nameCrates.nameDer cert.tbsCertificate.issuer = some issuer := hsigner ▸ hissuer
  rw [certNames, hparse]
  simp only [okOr, bind, Except.bind, hfirst, hsecond]
  rfl

theorem certificate_rootDer : testCrates.certificate rootDer = some rootCert := by
  dsimp only [testCrates]
  rw [if_pos rfl]

theorem certificate_issuerDer : testCrates.certificate issuerDer = some issuerCert := by
  dsimp only [testCrates]
  rw [if_neg issuerDer_ne_rootDer, if_pos rfl]

theorem certificate_leafDer : testCrates.certificate leafDer = some leafCert := by
  dsimp only [testCrates]
  rw [if_neg leafDer_ne_rootDer, if_neg leafDer_ne_issuerDer, if_pos rfl]

theorem parsed : Parsed nameCrates names [rootDer, leafDer, issuerDer] := by
  have hroot := certNames_eq rootCert certificate_rootDer rfl nameDer_root nameDer_root
  have hleaf := certNames_eq issuerCert certificate_leafDer rfl nameDer_leaf nameDer_issuer
  have hissuer := certNames_eq rootCert certificate_issuerDer rfl nameDer_issuer nameDer_root
  rw [← names_rootDer] at hroot
  rw [← names_leafDer] at hleaf
  rw [← names_issuerDer] at hissuer
  exact List.forall_mem_cons.mpr ⟨hroot, List.forall_mem_cons.mpr ⟨hleaf, List.forall_mem_cons.mpr
    ⟨hissuer, List.forall_mem_nil _⟩⟩⟩

theorem issuedInTurn_three {name : Bytes → Bytes × Bytes} {leaf issuer root : Bytes}
    (hdistinct : [(name leaf).1, (name issuer).1, (name root).1].Nodup)
    (hleaf : (name leaf).2 = (name issuer).1) (hissuer : (name issuer).2 = (name root).1)
    (hroot : (name root).2 = (name root).1) : IssuedInTurn name [leaf, issuer, root] where
  distinct := hdistinct
  issued := by
    intro i cert next hcert hnext
    match i with
    | 0 =>
      cases hcert
      cases hnext
      exact hleaf
    | 1 =>
      cases hcert
      cases hnext
      exact hissuer
    | i + 2 => cases hnext
  top := by
    intro i cert hcert hnext
    match i with
    | 0 => cases hnext
    | 1 => cases hnext
    | 2 =>
      cases hcert
      exact .inl hroot
    | i + 3 => cases hcert

theorem issuedInTurn : IssuedInTurn names [leafDer, issuerDer, rootDer] := by
  refine issuedInTurn_three ?_ ?_ ?_ ?_
  · rw [names_leafDer, names_issuerDer, names_rootDer]
    exact nameDistinct
  · rw [names_leafDer, names_issuerDer]
  · rw [names_issuerDer, names_rootDer]
  · rw [names_rootDer]

end Bundle

open Attestation.Fixture in
/-- The chain of the tests with the root first and the issuer last. -/
theorem leafCertificate_leaf_bundle :
    ∃ i, leafCertificate Bundle.nameCrates [rootDer, leafDer, issuerDer] = .ok i ∧
      [rootDer, leafDer, issuerDer][i]? = some leafDer := by
  have hperm : ([rootDer] ++ [leafDer, issuerDer]).Perm ([leafDer, issuerDer] ++ [rootDer]) :=
    List.perm_append_comm
  exact (leafCertificate_leaf Bundle.parsed).2.2.1 leafDer [issuerDer, rootDer] Bundle.issuedInTurn hperm

end Pkcs12
