import Ckman.Pkcs12
import Mathlib.Data.List.Forall2

/-!
# The bags of a PKCS#12 bundle

`parse_pfx` returns the first private key and the X.509 certificates of the
bags in all content infos, one after the other.
-/
namespace Pkcs12

open Host
open Pem (KeyError)
open Keys (ImportedKey fromPkcs8)

variable {Secret Point : Type} (crates : Crates Secret Point)

def isKeyBag (bag : SafeBag) : Bool :=
  bag.bagId.dotted = oidKeyBag ∨ bag.bagId.dotted = oidShroudedKeyBag

def isX509Bag (bag : SafeBag) : Bool :=
  bag.bagId.dotted = oidCertBag ∧
    (crates.decodeCertBag bag.bagValue).any (fun cert => cert.certId.dotted = oidX509Cert)

inductive HoldsKey [DecidableEq Point] (password : Option Bytes) (bag : SafeBag) (key : ImportedKey) :
    Prop
  | plain {der : Bytes} : bag.bagId.dotted = oidKeyBag → keyBag crates bag = .ok der →
      fromPkcs8 crates.toCrates der = .ok key → HoldsKey password bag key
  | shrouded {der : Bytes} : bag.bagId.dotted = oidShroudedKeyBag →
      shroudedKeyBag crates bag password = .ok der → fromPkcs8 crates.toCrates der = .ok key →
      HoldsKey password bag key

def HoldsCertificate (bag : SafeBag) (certificate : Bytes) : Prop :=
  ∃ cert, crates.decodeCertBag bag.bagValue = some cert ∧ cert.certId.dotted = oidX509Cert ∧
    crates.decodeOctets cert.certValue = some certificate

/-- The data is the first key and all X.509 certificates, in the order of the bags. -/
structure BagsHold [DecidableEq Point] (password : Option Bytes) (bags : List SafeBag)
    (data : PfxData) : Prop where
  key : Option.Rel (HoldsKey crates password) (bags.find? isKeyBag) data.key
  certificates : List.Forall₂ (HoldsCertificate crates) (bags.filter (isX509Bag crates))
    data.certificates

/-- A certificate of another type is not looked at. -/
def ReadsCertificate (bag : SafeBag) : Prop :=
  ∃ cert, crates.decodeCertBag bag.bagValue = some cert ∧
    (cert.certId.dotted = oidX509Cert → ∃ certificate, crates.decodeOctets cert.certValue = some certificate)

/-- The first key bag holds a key, and the certificate bags are well formed. -/
structure Readable [DecidableEq Point] (password : Option Bytes) (bags : List SafeBag) : Prop where
  key : ∀ bag ∈ bags.find? isKeyBag, ∃ key, HoldsKey crates password bag key
  certificates : ∀ bag ∈ bags, bag.bagId.dotted = oidCertBag → ReadsCertificate crates bag

def InfoHolds (password : Option Bytes) (info : ContentInfo) (bags : List SafeBag) : Prop :=
  ∃ contents, safeContents crates info password = .ok contents ∧ crates.safeBags contents = some bags

inductive BagsOf (input : Bytes) (password : Option Bytes) : List SafeBag → Prop
  | mk {pfx : Pfx} {authSafe : Bytes} {infos : List ContentInfo} {lists : List (List SafeBag)} :
      crates.pfx input = some pfx → crates.decodeOctets pfx.authSafe.content = some authSafe →
      crates.contentInfos authSafe = some infos →
      List.Forall₂ (InfoHolds crates password) infos lists → BagsOf input password lists.flatten

variable {crates}

theorem InfoHolds.unique {password : Option Bytes} {info : ContentInfo} {bags bags' : List SafeBag}
    (h : InfoHolds crates password info bags) (h' : InfoHolds crates password info bags') :
    bags = bags' := by
  obtain ⟨contents, hcontents, hbags⟩ := h
  obtain ⟨contents', hcontents', hbags'⟩ := h'
  obtain rfl := Except.ok.inj (hcontents.symm.trans hcontents')
  exact Option.some.inj (hbags.symm.trans hbags')

theorem BagsOf.unique {input : Bytes} {password : Option Bytes} {bags bags' : List SafeBag}
    (h : BagsOf crates input password bags) (h' : BagsOf crates input password bags') :
    bags = bags' := by
  cases h with
  | mk hpfx hsafe hinfos hlists =>
    cases h' with
    | mk hpfx' hsafe' hinfos' hlists' =>
      obtain rfl := Option.some.inj (hpfx.symm.trans hpfx')
      obtain rfl := Option.some.inj (hsafe.symm.trans hsafe')
      obtain rfl := Option.some.inj (hinfos.symm.trans hinfos')
      have hunique : Relator.RightUnique (InfoHolds crates password) := fun _ _ _ => InfoHolds.unique
      rw [List.right_unique_forall₂' hunique hlists hlists']

/-- A bag lies in one of the content infos. -/
theorem exists_info_of_mem {password : Option Bytes} {infos : List ContentInfo}
    {lists : List (List SafeBag)} {bag : SafeBag}
    (h : List.Forall₂ (InfoHolds crates password) infos lists) (hbag : bag ∈ lists.flatten) :
    ∃ info ∈ infos, ∃ bags, InfoHolds crates password info bags ∧ bag ∈ bags := by
  induction h with
  | nil => cases hbag
  | @cons info bags infos lists hinfo _ ih =>
    rw [List.flatten_cons, List.mem_append] at hbag
    cases hbag with
    | inl hbag => exact ⟨info, List.mem_cons_self, bags, hinfo, hbag⟩
    | inr hbag =>
      obtain ⟨info', hmem, hholds⟩ := ih hbag
      exact ⟨info', List.mem_cons_of_mem info hmem, hholds⟩

section Loops

variable [DecidableEq Point] {password : Option Bytes}

/-- The loop over the content infos is one loop over all of their bags. -/
theorem foldlM_collectInfo {infos : List ContentInfo} {s t : PfxData} :
    infos.foldlM (collectInfo crates password) s = .ok t ↔
      ∃ lists, List.Forall₂ (InfoHolds crates password) infos lists ∧
        lists.flatten.foldlM (collectBag crates password) s = .ok t := by
  induction infos generalizing s with
  | nil =>
    constructor
    · intro h
      exact ⟨[], .nil, h⟩
    · rintro ⟨lists, hlists, h⟩
      cases hlists
      exact h
  | cons info infos ih =>
    simp only [List.foldlM_cons, collectInfo, collectBags, Except.bind_eq_ok_iff, okOr_eq_ok_iff, ih]
    constructor
    · rintro ⟨next, ⟨contents, hcontents, bags, hbags, hnext⟩, lists, hlists, h⟩
      refine ⟨bags :: lists, .cons ⟨contents, hcontents, hbags⟩ hlists, ?_⟩
      rw [List.flatten_cons, List.foldlM_append, Except.bind_eq_ok_iff]
      exact ⟨next, hnext, h⟩
    · rintro ⟨_, hlists, h⟩
      cases hlists with
      | @cons _ bags _ lists hinfo hlists =>
        obtain ⟨contents, hcontents, hbags⟩ := hinfo
        rw [List.flatten_cons, List.foldlM_append, Except.bind_eq_ok_iff] at h
        obtain ⟨next, hnext, h⟩ := h
        exact ⟨next, ⟨contents, hcontents, bags, hbags, hnext⟩, lists, hlists, h⟩

/-- A bag gives the first key, or a certificate, or nothing. -/
theorem collectBag_cases {bag : SafeBag} {s t : PfxData}
    (h : collectBag crates password s bag = .ok t) :
    (isKeyBag bag = true ∧ isX509Bag crates bag = false ∧ s.key = none ∧
      ∃ key, HoldsKey crates password bag key ∧ t = { s with key := some key }) ∨
    (isKeyBag bag = false ∧ isX509Bag crates bag = true ∧
      ∃ certificate, HoldsCertificate crates bag certificate ∧
        t = { s with certificates := s.certificates ++ [certificate] }) ∨
    ((isKeyBag bag = true → s.key ≠ none) ∧ isX509Bag crates bag = false ∧ t = s) := by
  rw [collectBag] at h
  split_ifs at h with hplain hshrouded hcert
  · obtain ⟨hid, hnone⟩ := hplain
    obtain ⟨der, hder, h⟩ := Except.bind_eq_ok_iff.mp h
    obtain ⟨key, hkey, h⟩ := Except.bind_eq_ok_iff.mp h
    cases h
    refine .inl ⟨by simp [isKeyBag, hid], ?_, hnone, key, .plain hid hder hkey, rfl⟩
    simp [isX509Bag, hid, oidKeyBag, oidCertBag]
  · obtain ⟨hid, hnone⟩ := hshrouded
    obtain ⟨der, hder, h⟩ := Except.bind_eq_ok_iff.mp h
    obtain ⟨key, hkey, h⟩ := Except.bind_eq_ok_iff.mp h
    cases h
    refine .inl ⟨by simp [isKeyBag, hid], ?_, hnone, key, .shrouded hid hder hkey, rfl⟩
    simp [isX509Bag, hid, oidShroudedKeyBag, oidCertBag]
  · have hkey : isKeyBag bag = false := by
      simp [isKeyBag, hcert, oidKeyBag, oidShroudedKeyBag, oidCertBag]
    rw [certBag] at h
    obtain ⟨cert, hcertBag, h⟩ := Except.bind_eq_ok_iff.mp h
    rw [okOr_eq_ok_iff] at hcertBag
    split_ifs at h with hother
    · cases h
      refine .inr (.inr ⟨fun h => ?_, ?_, rfl⟩)
      · rw [hkey] at h
        cases h
      · simp [isX509Bag, hcertBag, hother]
    · obtain ⟨octets, hoctets, h⟩ := Except.bind_eq_ok_iff.mp h
      cases h
      have hx509 : cert.certId.dotted = oidX509Cert := not_not.mp hother
      refine .inr (.inl ⟨hkey, ?_, octets, ⟨cert, hcertBag, hx509, okOr_eq_ok_iff.mp hoctets⟩, rfl⟩)
      simp [isX509Bag, hcert, hcertBag, hx509]
  · cases h
    refine .inr (.inr ⟨fun h hnone => ?_, by simp [isX509Bag, hcert], rfl⟩)
    rw [isKeyBag, decide_eq_true_iff] at h
    rcases h with h | h
    · exact hplain ⟨h, hnone⟩
    · exact hshrouded ⟨h, hnone⟩

/-- What the bags seen so far hold, with one bag more. -/
theorem BagsHold.concat {bags : List SafeBag} {bag : SafeBag} {s t : PfxData}
    (h : BagsHold crates password bags s) (hstep : collectBag crates password s bag = .ok t) :
    BagsHold crates password (bags ++ [bag]) t := by
  have hfind : (bags ++ [bag]).find? isKeyBag =
      (bags.find? isKeyBag).or (if isKeyBag bag then some bag else none) := by
    rw [List.find?_append, List.find?_singleton]
  have hfilter : (bags ++ [bag]).filter (isX509Bag crates) =
      bags.filter (isX509Bag crates) ++ if isX509Bag crates bag then [bag] else [] := by
    rw [List.filter_append, List.filter_singleton, Bool.cond_eq_ite]
  obtain ⟨hkey, hcertificates⟩ := h
  rcases collectBag_cases hstep with ⟨hid, hx509, hnone, key, hholds, rfl⟩ |
    ⟨hid, hx509, certificate, hholds, rfl⟩ | ⟨hid, hx509, rfl⟩
  · constructor
    · rw [hnone] at hkey
      rw [hfind, hid]
      generalize bags.find? isKeyBag = first at hkey ⊢
      cases hkey
      exact .some hholds
    · rw [hfilter, hx509]
      simpa using hcertificates
  · constructor
    · rw [hfind, hid]
      simpa using hkey
    · rw [hfilter, hx509]
      exact List.rel_append hcertificates (.cons hholds .nil)
  · constructor
    · rw [hfind]
      cases hbag : isKeyBag bag with
      | false => simpa using hkey
      | true =>
        have hsome := hid hbag
        generalize bags.find? isKeyBag = first at hkey ⊢
        generalize t.key = found at hkey hsome ⊢
        cases hkey with
        | none => exact absurd rfl hsome
        | some hholds => exact .some hholds
    · rw [hfilter, hx509]
      simpa using hcertificates

omit [DecidableEq Point] in
theorem certBag_ok_iff {bag : SafeBag} {s : PfxData} :
    (∃ t, certBag crates bag s = .ok t) ↔ ReadsCertificate crates bag := by
  simp only [certBag, Except.bind_eq_ok_iff, okOr_eq_ok_iff]
  constructor
  · rintro ⟨t, cert, hcert, h⟩
    refine ⟨cert, hcert, fun hx509 => ?_⟩
    rw [if_neg (not_not.mpr hx509)] at h
    obtain ⟨certificate, hcertificate, -⟩ := Except.bind_eq_ok_iff.mp h
    exact ⟨certificate, okOr_eq_ok_iff.mp hcertificate⟩
  · rintro ⟨cert, hcert, hx509⟩
    by_cases hother : cert.certId.dotted = oidX509Cert
    · obtain ⟨certificate, hcertificate⟩ := hx509 hother
      refine ⟨{ s with certificates := s.certificates ++ [certificate] }, cert, hcert, ?_⟩
      rw [if_neg (not_not.mpr hother), hcertificate]
      rfl
    · exact ⟨s, cert, hcert, if_pos hother⟩

theorem collectBag_ok_iff {bag : SafeBag} {s : PfxData} :
    (∃ t, collectBag crates password s bag = .ok t) ↔
      (s.key = none → isKeyBag bag = true → ∃ key, HoldsKey crates password bag key) ∧
        (bag.bagId.dotted = oidCertBag → ReadsCertificate crates bag) := by
  have hkeys : ∀ id, id = oidKeyBag ∨ id = oidShroudedKeyBag → id ≠ oidCertBag := by
    rintro id (rfl | rfl) <;> decide
  constructor
  · rintro ⟨t, h⟩
    refine ⟨fun hnone hid => ?_, fun hcert => ?_⟩
    · rcases collectBag_cases h with ⟨-, -, -, key, hholds, -⟩ | ⟨hother, -⟩ | ⟨hsome, -⟩
      · exact ⟨key, hholds⟩
      · rw [hid] at hother
        cases hother
      · exact absurd hnone (hsome hid)
    · rw [collectBag, if_neg fun hplain => hkeys _ (.inl hplain.1) hcert,
        if_neg fun hshrouded => hkeys _ (.inr hshrouded.1) hcert, if_pos hcert] at h
      exact certBag_ok_iff.mp ⟨t, h⟩
  · rintro ⟨hkey, hcert⟩
    rw [collectBag]
    split_ifs with hplain hshrouded hid
    · obtain ⟨key, hholds⟩ := hkey hplain.2 (by simp [isKeyBag, hplain.1])
      cases hholds with
      | plain hbag hder hfrom => exact ⟨_, by rw [hder, Except.ok_bind, hfrom]; rfl⟩
      | shrouded hbag =>
        rw [hplain.1] at hbag
        exact absurd hbag (by decide)
    · obtain ⟨key, hholds⟩ := hkey hshrouded.2 (by simp [isKeyBag, hshrouded.1])
      cases hholds with
      | plain hbag =>
        rw [hshrouded.1] at hbag
        exact absurd hbag (by decide)
      | shrouded hbag hder hfrom => exact ⟨_, by rw [hder, Except.ok_bind, hfrom]; rfl⟩
    · exact certBag_ok_iff.mpr (hcert hid)
    · exact ⟨s, rfl⟩

/-- The bags that were read hold what has been collected. -/
theorem BagsHold.append {bags more : List SafeBag} {s t : PfxData}
    (h : BagsHold crates password bags s)
    (hloop : more.foldlM (collectBag crates password) s = .ok t) :
    BagsHold crates password (bags ++ more) t := by
  induction more generalizing bags s with
  | nil =>
    cases hloop
    rwa [List.append_nil]
  | cons bag more ih =>
    rw [List.foldlM_cons, Except.bind_eq_ok_iff] at hloop
    obtain ⟨next, hnext, hloop⟩ := hloop
    have hmore := ih (h.concat hnext) hloop
    rwa [List.append_assoc, List.singleton_append] at hmore

/-- The key is there as soon as there was a key bag. -/
theorem collectBag_key {bag : SafeBag} {s t : PfxData} (h : collectBag crates password s bag = .ok t) :
    t.key = none ↔ s.key = none ∧ isKeyBag bag = false := by
  rcases collectBag_cases h with ⟨hid, -, -, key, -, rfl⟩ | ⟨hid, -, certificate, -, rfl⟩ | ⟨hid, -, rfl⟩
  · simp [hid]
  · simp [hid]
  · constructor
    · intro hnone
      exact ⟨hnone, Bool.eq_false_iff.mpr fun hbag => hid hbag hnone⟩
    · exact And.left

theorem foldlM_collectBag_key {bags : List SafeBag} {s t : PfxData}
    (h : bags.foldlM (collectBag crates password) s = .ok t) :
    t.key = none ↔ s.key = none ∧ ∀ bag ∈ bags, isKeyBag bag = false := by
  induction bags generalizing s with
  | nil =>
    cases h
    simp
  | cons bag bags ih =>
    rw [List.foldlM_cons, Except.bind_eq_ok_iff] at h
    obtain ⟨next, hnext, h⟩ := h
    rw [ih h, collectBag_key hnext, List.forall_mem_cons, and_assoc]

/-- The loop goes through if the first key bag, unless there is a key, and all certificate bags
are well formed. -/
theorem foldlM_collectBag_ok_iff {bags : List SafeBag} {s : PfxData} :
    (∃ t, bags.foldlM (collectBag crates password) s = .ok t) ↔
      (s.key = none → ∀ bag ∈ bags.find? isKeyBag, ∃ key, HoldsKey crates password bag key) ∧
        ∀ bag ∈ bags, bag.bagId.dotted = oidCertBag → ReadsCertificate crates bag := by
  induction bags generalizing s with
  | nil => exact iff_of_true ⟨s, rfl⟩ ⟨by simp, by simp⟩
  | cons bag bags ih =>
    have hsplit : (∃ t, (bag :: bags).foldlM (collectBag crates password) s = .ok t) ↔
        ∃ next, collectBag crates password s bag = .ok next ∧
          ∃ t, bags.foldlM (collectBag crates password) next = .ok t := by
      simp only [List.foldlM_cons, Except.bind_eq_ok_iff]
      constructor
      · rintro ⟨t, next, hnext, h⟩
        exact ⟨next, hnext, t, h⟩
      · rintro ⟨next, hnext, t, h⟩
        exact ⟨t, next, hnext, h⟩
    rw [hsplit, List.forall_mem_cons]
    constructor
    · rintro ⟨next, hnext, h⟩
      obtain ⟨hfirst, hcert⟩ := collectBag_ok_iff.mp ⟨next, hnext⟩
      obtain ⟨hrest, hcerts⟩ := ih.mp h
      refine ⟨fun hnone => ?_, hcert, hcerts⟩
      cases hid : isKeyBag bag with
      | true =>
        rw [List.find?_cons_of_pos hid]
        rintro _ ⟨⟩
        exact hfirst hnone hid
      | false =>
        rw [List.find?_cons_of_neg (by simp [hid])]
        exact hrest ((collectBag_key hnext).mpr ⟨hnone, hid⟩)
    · rintro ⟨hkey, hcert, hcerts⟩
      have hfirst : s.key = none → isKeyBag bag = true → ∃ key, HoldsKey crates password bag key := by
        intro hnone hid
        exact hkey hnone bag (by rw [List.find?_cons_of_pos hid]; rfl)
      obtain ⟨next, hnext⟩ := collectBag_ok_iff.mpr ⟨hfirst, hcert⟩
      refine ⟨next, hnext, ih.mpr ⟨fun hnone => ?_, hcerts⟩⟩
      obtain ⟨hnone, hid⟩ := (collectBag_key hnext).mp hnone
      have hrest := hkey hnone
      rwa [List.find?_cons_of_neg (by simp [hid])] at hrest

theorem foldlM_readable {bags : List SafeBag} :
    (∃ data, bags.foldlM (collectBag crates password) ⟨none, []⟩ = .ok data) ↔
      Readable crates password bags := by
  rw [foldlM_collectBag_ok_iff]
  constructor
  · rintro ⟨hkey, hcerts⟩
    exact ⟨hkey rfl, hcerts⟩
  · rintro ⟨hkey, hcerts⟩
    exact ⟨fun _ => hkey, hcerts⟩

/-- The loop that a bundle is read with goes over its bags. -/
theorem parsePfx_bags {input : Bytes} {data : PfxData}
    (h : parsePfx crates input password = .ok data) :
    ∃ bags, BagsOf crates input password bags ∧
      bags.foldlM (collectBag crates password) ⟨none, []⟩ = .ok data := by
  simp only [parsePfx, Except.bind_eq_ok_iff, okOr_eq_ok_iff] at h
  obtain ⟨pfx, hpfx, ⟨⟩, -, authSafe, hsafe, ⟨⟩, -, infos, hinfos, data', hloop, ⟨⟩, -, hdata⟩ := h
  cases hdata
  obtain ⟨lists, hlists, hloop⟩ := foldlM_collectInfo.mp hloop
  exact ⟨lists.flatten, .mk hpfx hsafe hinfos hlists, hloop⟩

/-- A bundle that is accepted gives what its bags hold. -/
theorem parsePfx_holds {input : Bytes} {data : PfxData}
    (h : parsePfx crates input password = .ok data) :
    ∃ bags, BagsOf crates input password bags ∧ BagsHold crates password bags data := by
  obtain ⟨bags, hbags, hloop⟩ := parsePfx_bags h
  have hempty : BagsHold crates password [] ⟨none, []⟩ := ⟨.none, .nil⟩
  exact ⟨bags, hbags, hempty.append hloop⟩

end Loops

end Pkcs12
