import GrpcContract.Proofs.MessageTypes
import GrpcContract.Proofs.Methods
import GrpcContract.Proofs.Results
import GrpcContract.Sample.Schema
import Mathlib.Data.List.Induction
import Mathlib.Data.Set.Card

/-!
# Registries of services

A registry is made of services that a schema declares. It resolves the paths of their methods, each
to its method, and no other path; so it does not matter in which order or how often the services
are named.
-/

namespace GrpcContract

/-! ### Services of a schema -/

/-- The parts of a list before and after the first place of a mark are told by the list. -/
theorem parts_eq_of_append_cons {α : Type} {a : α} {before before' after after' : List α}
    (hbefore : a ∉ before) (hbefore' : a ∉ before')
    (heq : before ++ a :: after = before' ++ a :: after') : before = before' ∧ after = after' := by
  -- `List.append_cons_inj_of_notMem` asks that the mark stands in neither part of one list.
  rcases List.append_eq_append_iff.mp heq with ⟨between, rfl, hrest⟩ | ⟨between, rfl, hrest⟩
  · cases between with
    | nil =>
        rw [List.nil_append] at hrest
        exact ⟨(List.append_nil before).symm, (List.cons.inj hrest).2⟩
    | cons b between =>
        obtain ⟨rfl, -⟩ := List.cons.inj hrest
        exact absurd (by simp) hbefore'
  · cases between with
    | nil =>
        rw [List.nil_append] at hrest
        exact ⟨List.append_nil before', (List.cons.inj hrest).2.symm⟩
    | cons b between =>
        obtain ⟨rfl, -⟩ := List.cons.inj hrest
        exact absurd (by simp) hbefore

namespace Schema

/-- What a compiler of schemas guarantees of services: they have names of their own, which are
identifiers joined by dots and so hold no slash, and each method bears the name of its service and
has a name of its own in it. -/
structure ServicesNamed (s : Schema) : Prop where
  service_ne : s.services.Pairwise fun service service' => service.name ≠ service'.name
  slash_not_mem : ∀ service ∈ s.services, '/' ∉ service.name.toList
  method_service : ∀ service ∈ s.services, ∀ m ∈ service.methods, m.service = service.name
  method_ne : ∀ service ∈ s.services, service.methods.Pairwise fun m m' => m.name ≠ m'.name

/-- Whether there is a service of a name, which may be written with a leading dot. -/
def Declares (s : Schema) (name : String) : Prop :=
  ∃ service ∈ s.services, service.name = bareName name

/-- Whether a method belongs to one of the services named. -/
def Offers (s : Schema) (names : List String) (m : Method) : Prop :=
  ∃ name ∈ names, ∃ service ∈ s.services, service.name = bareName name ∧ m ∈ service.methods

variable {s : Schema}

theorem isSome_service?_iff {name : String} :
    (s.service? name).isSome = true ↔ s.Declares name := by
  simp [service?, Declares, List.find?_isSome]

theorem service?_eq_some_iff (hs : s.ServicesNamed) {name : String} {service : Service} :
    s.service? name = some service ↔ service ∈ s.services ∧ service.name = bareName name := by
  constructor
  · intro hfound
    have hname := List.find?_some hfound
    exact ⟨List.mem_of_find?_eq_some hfound, eq_of_beq hname⟩
  · rintro ⟨hmem, hname⟩
    rw [service?, ← hname]
    exact find?_eq_some_of_pairwise hs.service_ne hmem

/-- The key of a method tells its service, as no slash occurs in the name of a service. -/
theorem ServicesNamed.eq_of_key (hs : s.ServicesNamed) {service service' : Service} {m m' : Method}
    (hservice : service ∈ s.services) (hservice' : service' ∈ s.services)
    (hm : m ∈ service.methods) (hm' : m' ∈ service'.methods) (hkey : m.key = m'.key) : m = m' := by
  have hparts : service.name.toList ++ '/' :: m.name.toList =
      service'.name.toList ++ '/' :: m'.name.toList := by
    rw [Method.key, Method.key, hs.method_service _ hservice _ hm,
      hs.method_service _ hservice' _ hm'] at hkey
    simpa [← String.toList_inj] using hkey
  have hslash : '/' ∉ service.name.toList := hs.slash_not_mem _ hservice
  have hslash' : '/' ∉ service'.name.toList := hs.slash_not_mem _ hservice'
  obtain ⟨hname, hmethod⟩ := parts_eq_of_append_cons hslash hslash' hparts
  obtain rfl := eq_of_pairwise_of_key hs.service_ne hservice hservice' (String.toList_inj.mp hname)
  exact eq_of_pairwise_of_key (hs.method_ne _ hservice) hm hm' (String.toList_inj.mp hmethod)

end Schema

/-! ### Registries of methods -/

namespace Registry

def methods (r : Registry) : List Method := r.entries.map (·.2)

/-- Whether a registry holds certain methods, each once and under its own key. -/
structure Holds (r : Registry) (held : Method → Prop) : Prop where
  keyed : r.Keyed
  key_ne : r.entries.Pairwise fun entry entry' => entry.1 ≠ entry'.1
  mem_iff : ∀ m, m ∈ r.methods ↔ held m

variable {r r' : Registry} {held : Method → Prop}

/-- A method that is added takes the place of none but itself. -/
theorem Holds.add (hr : r.Holds held) {m : Method} (hkey : ∀ m', held m' → m'.key = m.key → m' = m) :
    (r.add m).Holds fun m' => held m' ∨ m' = m where
  keyed := hr.keyed.add m
  key_ne := by
    rw [Registry.add, List.pairwise_append]
    refine ⟨hr.key_ne.filter _, List.pairwise_singleton _ _, ?_⟩
    intro entry hmem entry' hnew
    rw [List.mem_singleton.mp hnew]
    exact bne_iff_ne.mp (List.mem_filter.mp hmem).2
  mem_iff m' := by
    simp only [methods, Registry.add, List.map_append, List.mem_append, List.map_cons,
      List.map_nil, List.mem_singleton, ← hr.mem_iff, List.mem_map, List.mem_filter, bne_iff_ne]
    constructor
    · rintro (⟨entry, ⟨hmem, -⟩, rfl⟩ | rfl)
      · exact .inl ⟨entry, hmem, rfl⟩
      · exact .inr rfl
    · rintro (⟨entry, hmem, rfl⟩ | rfl)
      · by_cases hsame : entry.1 = m.key
        · rw [hr.keyed entry hmem] at hsame
          exact .inr (hkey _ ((hr.mem_iff _).mp (List.mem_map_of_mem hmem)) hsame)
        · exact .inl ⟨entry, ⟨hmem, hsame⟩, rfl⟩
      · exact .inr rfl

theorem holds_ofMethods {ms : List Method}
    (hkey : ∀ m ∈ ms, ∀ m' ∈ ms, m.key = m'.key → m = m') : (ofMethods ms).Holds (· ∈ ms) := by
  induction ms using List.reverseRecOn with
  | nil =>
      exact ⟨fun _ hmem => absurd hmem List.not_mem_nil, .nil, fun _ => .rfl⟩
  | append_singleton ms m ih =>
      have hms : (ofMethods ms).Holds (· ∈ ms) :=
        ih fun m hm m' hm' => hkey m (by simp [hm]) m' (by simp [hm'])
      have hadd := hms.add fun m' hm' => hkey m' (by simp [hm']) m (by simp)
      simp only [ofMethods, List.foldl_concat, List.mem_append, List.mem_singleton]
      exact hadd

theorem Holds.get?_eq_some_iff (hr : r.Holds held) {key : String} {m : Method} :
    r.get? key = some m ↔ held m ∧ m.key = key := by
  rw [← hr.mem_iff]
  constructor
  · intro hfound
    exact ⟨List.mem_map_of_mem (mem_of_lookup hfound), (hr.keyed.key_of_get? hfound).symm⟩
  · rintro ⟨hmem, rfl⟩
    obtain ⟨entry, hentry, rfl⟩ := List.mem_map.mp hmem
    have hlookup := lookup_map_of_pairwise Prod.snd hr.key_ne hentry
    rwa [List.map_id', hr.keyed entry hentry] at hlookup

/-- Registries that hold the same methods answer alike. -/
theorem Holds.get?_congr (hr : r.Holds held) (hr' : r'.Holds held) (key : String) :
    r'.get? key = r.get? key := by
  ext m
  rw [hr'.get?_eq_some_iff, hr.get?_eq_some_iff]

theorem Holds.nodup (hr : r.Holds held) : r.methods.Nodup := by
  refine List.pairwise_map.mpr (hr.key_ne.imp_of_mem ?_)
  intro entry entry' hmem hmem' hne hsame
  rw [hr.keyed entry hmem, hr.keyed entry' hmem', hsame] at hne
  exact hne rfl

theorem Holds.size_eq_encard (hr : r.Holds held) : (r.size : ℕ∞) = {m | held m}.encard := by
  have hsame : {m | held m} = (r.methods.toFinset : Set Method) := by
    ext m
    simp [hr.mem_iff]
  rw [hsame, Set.encard_coe_eq_coe_finsetCard, List.toFinset_card_of_nodup hr.nodup, methods,
    List.length_map, size]

/-! ### Paths -/

theorem resolve_congr (hget : ∀ key, r'.get? key = r.get? key) (path : String) :
    r'.resolve path = r.resolve path := by
  simp only [Registry.resolve, hget]

/-- What comes of each path where certain methods can be called: a method under its own path, and a
failure that tells whether the path lacks its slash or means no method. -/
structure Resolves (r : Registry) (offered : Method → Prop) (path : String) : Prop where
  ok_iff : ∀ m, r.resolve path = .ok m ↔ offered m ∧ path = m.path
  argument_iff : (∃ message, r.resolve path = .error (.argument message)) ↔
    ¬ ∃ key, path = "/" ++ key
  state_iff : (∃ message, r.resolve path = .error (.state message)) ↔
    (∃ key, path = "/" ++ key) ∧ ∀ m, offered m → path ≠ m.path

theorem Holds.resolve_eq_ok_iff (hr : r.Holds held) {path : String} {m : Method} :
    r.resolve path = .ok m ↔ held m ∧ path = m.path := by
  rw [Registry.resolve_eq_ok_iff]
  constructor
  · rintro ⟨key, hkey, hget⟩
    obtain ⟨hheld, rfl⟩ := hr.get?_eq_some_iff.mp hget
    exact ⟨hheld, path_of_methodKey hkey⟩
  · rintro ⟨hheld, rfl⟩
    exact ⟨m.key, methodKey_slash m.key, hr.get?_eq_some_iff.mpr ⟨hheld, rfl⟩⟩

theorem Holds.resolves (hr : r.Holds held) (path : String) : r.Resolves held path where
  ok_iff m := hr.resolve_eq_ok_iff
  argument_iff := by
    refine ⟨?_, r.argument_of_no_slash⟩
    rintro ⟨message, hargument⟩ ⟨key, rfl⟩
    rcases r.ok_or_state_of_slash key with ⟨m, hok⟩ | ⟨message', hstate⟩
    · rw [hok] at hargument
      cases hargument
    · rw [hstate] at hargument
      cases hargument
  state_iff := by
    constructor
    · rintro ⟨message, hstate⟩
      refine ⟨?_, fun m hmem hpath => ?_⟩
      · by_contra hslash
        obtain ⟨message', hargument⟩ := r.argument_of_no_slash hslash
        rw [hargument] at hstate
        cases hstate
      · rw [hr.resolve_eq_ok_iff.mpr ⟨hmem, hpath⟩] at hstate
        cases hstate
    · rintro ⟨⟨key, rfl⟩, hnone⟩
      refine (r.ok_or_state_of_slash key).resolve_left ?_
      rintro ⟨m, hok⟩
      obtain ⟨hmem, hpath⟩ := hr.resolve_eq_ok_iff.mp hok
      exact hnone m hmem hpath

/-! ### Registries of services -/

variable {s : Schema} {names : List String}

theorem mapM_serviceNamed_eq_ok_iff {services : List Service} :
    names.mapM (serviceNamed s) = .ok services ↔
      (∀ name ∈ names, (s.service? name).isSome = true) ∧
        services = names.filterMap s.service? := by
  induction names generalizing services with
  | nil =>
      constructor
      · intro hok
        obtain rfl := Except.ok.inj hok
        simp
      · rintro ⟨-, rfl⟩
        rfl
  | cons name names ih =>
      rw [List.mapM_cons, List.forall_mem_cons]
      cases hfound : s.service? name with
      | none => simp [serviceNamed, hfound, bind, Except.bind]
      | some service =>
          rw [List.filterMap_cons_some hfound]
          constructor
          · intro hok
            obtain ⟨service', hservice, hok⟩ := Except.ok_of_bind hok
            obtain ⟨services', hservices, hok⟩ := Except.ok_of_bind hok
            obtain rfl := Except.ok.inj hok
            rw [serviceNamed, hfound] at hservice
            obtain rfl := Except.ok.inj hservice
            obtain ⟨hall, rfl⟩ := ih.mp hservices
            exact ⟨⟨rfl, hall⟩, rfl⟩
          · rintro ⟨⟨-, hall⟩, rfl⟩
            rw [serviceNamed, hfound, ih.mpr ⟨hall, rfl⟩]
            rfl

theorem ofServices_eq_ok_iff {r : Registry} : ofServices s names = .ok r ↔
    names ≠ [] ∧ (∀ name ∈ names, s.Declares name) ∧
      r = ofMethods ((names.filterMap s.service?).flatMap (·.methods)) := by
  have hempty (hall : ∀ name ∈ names, (s.service? name).isSome = true) :
      (names.filterMap s.service?).isEmpty = true ↔ names = [] := by
    rw [List.isEmpty_iff, List.filterMap_eq_nil_iff]
    constructor
    · intro hnone
      refine List.eq_nil_iff_forall_not_mem.mpr fun name hname => ?_
      have hsome := hall name hname
      rw [hnone name hname] at hsome
      cases hsome
    · rintro rfl name hname
      cases hname
  simp only [← Schema.isSome_service?_iff]
  constructor
  · intro hok
    obtain ⟨services, hservices, hok⟩ := Except.ok_of_bind hok
    obtain ⟨hall, rfl⟩ := mapM_serviceNamed_eq_ok_iff.mp hservices
    split at hok
    · cases hok
    · rename_i hne
      exact ⟨mt (hempty hall).mpr hne, hall, (Except.ok.inj hok).symm⟩
  · rintro ⟨hne, hall, rfl⟩
    rw [ofServices, mapM_serviceNamed_eq_ok_iff.mpr ⟨hall, rfl⟩]
    simp only [bind, Except.bind, if_neg (mt (hempty hall).mp hne)]
    rfl

theorem mem_methods_iff (hs : s.ServicesNamed) (m : Method) :
    m ∈ (names.filterMap s.service?).flatMap (·.methods) ↔ s.Offers names m := by
  simp only [List.mem_flatMap, List.mem_filterMap, Schema.service?_eq_some_iff hs, Schema.Offers]
  constructor
  · rintro ⟨service, ⟨name, hname, hmem, hsame⟩, hm⟩
    exact ⟨name, hname, service, hmem, hsame, hm⟩
  · rintro ⟨name, hname, service, hmem, hsame, hm⟩
    exact ⟨service, ⟨name, hname, hmem, hsame⟩, hm⟩

theorem holds_ofServices (hs : s.ServicesNamed) (hr : ofServices s names = .ok r) :
    r.Holds (s.Offers names) := by
  obtain ⟨-, -, rfl⟩ := ofServices_eq_ok_iff.mp hr
  have hoffers : s.Offers names = (· ∈ (names.filterMap s.service?).flatMap (·.methods)) :=
    funext fun m => propext (mem_methods_iff hs m).symm
  rw [hoffers]
  refine holds_ofMethods fun m hm m' hm' hkey => ?_
  obtain ⟨-, -, service, hmem, -, hm⟩ := (mem_methods_iff hs m).mp hm
  obtain ⟨-, -, service', hmem', -, hm'⟩ := (mem_methods_iff hs m').mp hm'
  exact hs.eq_of_key hmem hmem' hm hm' hkey

/-- A registry can be made of named services exactly where some are named and the schema declares
each. It then resolves the paths of their methods and no others, tells a path without its slash from
one that means no method, has as many methods as the services have, and depends on nothing but
which services are named. No two methods of a schema have one path. -/
theorem ofServices_resolves (hs : s.ServicesNamed) (names : List String) :
    ((∃ r, ofServices s names = .ok r) ↔ names ≠ [] ∧ ∀ name ∈ names, s.Declares name) ∧
      (∀ r, ofServices s names = .ok r →
        (∀ path, r.Resolves (s.Offers names) path) ∧
        (r.size : ℕ∞) = {m | s.Offers names m}.encard ∧
        ∀ names', (∀ name, name ∈ names' ↔ name ∈ names) →
          ∃ r', ofServices s names' = .ok r' ∧ ∀ path, r'.resolve path = r.resolve path) ∧
      Set.InjOn Method.path {m | ∃ service ∈ s.services, m ∈ service.methods} := by
  refine ⟨?_, fun r hr => ?_, ?_⟩
  · simp only [ofServices_eq_ok_iff]
    exact ⟨fun ⟨r, hne, hall, _⟩ => ⟨hne, hall⟩, fun ⟨hne, hall⟩ => ⟨_, hne, hall, rfl⟩⟩
  · have hholds := holds_ofServices hs hr
    refine ⟨hholds.resolves, hholds.size_eq_encard, fun names' hnames => ?_⟩
    obtain ⟨hne, hall, -⟩ := ofServices_eq_ok_iff.mp hr
    obtain ⟨name, hname⟩ := List.exists_mem_of_ne_nil names hne
    have hr' := ofServices_eq_ok_iff.mpr ⟨List.ne_nil_of_mem ((hnames name).mpr hname),
      fun name hname => hall name ((hnames name).mp hname), rfl⟩
    have hoffers : s.Offers names' = s.Offers names := by
      funext m
      simp only [Schema.Offers, hnames]
    have hholds' := holds_ofServices hs hr'
    rw [hoffers] at hholds'
    exact ⟨_, hr', resolve_congr (hholds.get?_congr hholds')⟩
  · rintro m ⟨service, hservice, hm⟩ m' ⟨service', hservice', hm'⟩ hpath
    exact hs.eq_of_key hservice hservice' hm hm' ((String.append_right_inj _).mp hpath)

end Registry

namespace Sample

theorem schema_servicesNamed : schema.ServicesNamed where
  service_ne := by decide
  slash_not_mem := by decide
  method_service := by decide
  method_ne := by decide

/-- A service that is named twice, once with a leading dot, is registered once, and the path of its
first method is resolved. -/
theorem ofServices_serviceName_twice :
    ∃ r m, Registry.ofServices schema [serviceName, "." ++ serviceName] = .ok r ∧
      r.resolve unaryPath = .ok m ∧ m.name = "UnaryMethod" := by
  obtain ⟨hmade, hresolves, -⟩ :=
    Registry.ofServices_resolves schema_servicesNamed [serviceName, "." ++ serviceName]
  have hdeclares : ∀ name ∈ [serviceName, "." ++ serviceName], schema.Declares name := by
    unfold Schema.Declares
    decide
  obtain ⟨r, hr⟩ := hmade.mpr ⟨by simp, hdeclares⟩
  obtain ⟨m, hm, hname, hpath⟩ :
      ∃ m ∈ service.methods, m.name = "UnaryMethod" ∧ unaryPath = m.path := by decide
  have hoffers : schema.Offers [serviceName, "." ++ serviceName] m :=
    ⟨serviceName, by simp, service, by decide, by decide, hm⟩
  exact ⟨r, m, hr, (((hresolves r hr).1 unaryPath).ok_iff m).mpr ⟨hoffers, hpath⟩, hname⟩

end Sample

end GrpcContract
