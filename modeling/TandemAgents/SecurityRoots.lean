import TandemAgents.SecurityBundle

/-!
# Independence of the security roots

The roots of a bundle are compared by the spelling of their paths, where `/` and `//` are two
roots. The system knows one: two leading slashes are as good as one. So the roots of an
accepted bundle are disjoint as far as they are spelled with the same number of slashes, and
otherwise only by chance.
-/
namespace SecurityRoots

open PythonText JsonData PurePath SecurityBundle
open Keyring hiding Bundle

set_option maxRecDepth 20000

/-! ## Places and settings -/

/-- Where the system finds an absolute path: the names it walks from its one root. -/
def location (text : String) : List (List Char) := components text.toList

/-- Two places are different, and neither lies in the other. -/
def Apart (a b : String) : Prop := ¬ Nested (location a) (location b)

instance (a b : String) : Decidable (Apart a b) := inferInstanceAs (Decidable (¬ _))

/-- Two paths begin with equally many slashes. -/
def SameStart (a b : String) : Prop := (purePosixPath a).root = (purePosixPath b).root

instance (a b : String) : Decidable (SameStart a b) := inferInstanceAs (Decidable (_ = _))

section
variable (values : Values)

def installText : String := (values "HOSTED_INSTALL_ROOT").getD ""
def anchorText : String := (values "HOSTED_AUDIT_ANCHOR_ROOT").getD ""

/-- A root that is set, or its default below the installation root. -/
def rootSetting (name suffix : String) : String := rootText values (purePosixPath (installText values)) name suffix

/-- The roots every version has. -/
def securitySettings : List (String × String) :=
  [("state", rootSetting values "HOSTED_ENGINE_STATE_ROOT" "tandem-engine-state"),
    ("security", rootSetting values "HOSTED_SECURITY_ROOT" "runtime-security"),
    ("replay", rootSetting values "HOSTED_REPLAY_ROOT" "context-replay"), ("anchor", anchorText values),
    ("panel_auth", rootSetting values "HOSTED_PANEL_AUTH_ROOT" "panel-auth")]

/-- The settings of the roots that a bundle keeps from the workload. -/
def hostSettings : List (String × String) :=
  securitySettings values ++
    (if versionOf values = "1" then [] else [("policy", rootSetting values "HOSTED_POLICY_ROOT" "hosted-policy")]) ++
    if versionOf values = "3" then
      [("memory_kms_commands", rootSetting values "HOSTED_MEMORY_KMS_COMMAND_ROOT" "memory-kms-commands")]
    else []

/-- The settings of the ordinary roots. -/
def ordinarySettings : List (String × String) :=
  ordinarySuffixes.map fun f => (f.1, rootSetting values ("HOSTED_" ++ f.1 ++ "_ROOT") f.2)

/-- The security roots of a bundle are pairwise apart, apart from the ordinary roots, and the
anchor is apart from the installation. -/
structure RootsDisjoint (b : Bundle) : Prop where
  hosts : b.hostPaths.Pairwise fun p q => Apart p.2 q.2
  ordinary : ∀ p ∈ b.hostPaths, ∀ o ∈ b.ordinaryPaths, Apart p.2 o.2
  anchor : ∀ p ∈ b.hostPaths, p.1 = "anchor" → Apart p.2 (installText values)

/-- Compared roots of which one is set with one slash in front and the other with two are apart. -/
structure MixedApart : Prop where
  hosts : (hostSettings values).Pairwise fun p q => SameStart p.2 q.2 ∨ Apart p.2 q.2
  ordinary : ∀ p ∈ hostSettings values, ∀ o ∈ ordinarySettings values, SameStart p.2 o.2 ∨ Apart p.2 o.2
  anchor : SameStart (anchorText values) (installText values) ∨ Apart (anchorText values) (installText values)

end

/-! ## Accepted paths -/

/-- A text is the spelling of an absolute path with no way upwards. -/
structure Spelled (text : String) : Prop where
  absolute : (purePosixPath text).isAbsolute = true
  printed : pathText (purePosixPath text) = text
  down : ['.', '.'] ∉ (purePosixPath text).tail

/-- An accepted path is the one its text spells. -/
theorem posixPath_ok {text name : String} {p : PurePosixPath} (h : posixPath text name = .ok p) :
    p = purePosixPath text ∧ Spelled text := by
  unfold posixPath at h
  obtain ⟨hpath, h⟩ := check_bind_ok.mp h
  obtain ⟨-, h⟩ := check_bind_ok.mp h
  have hp : purePosixPath text = p := Except.ok.inj h
  have hpath := require_ok.mp hpath
  simp only [Bool.and_eq_true, decide_eq_true_eq] at hpath
  obtain ⟨⟨⟨habsolute, hstr⟩, hdown⟩, -⟩ := hpath
  have hprinted : pathText (purePosixPath text) = text := by rw [pathText, hstr, String.ofList_toList]
  exact ⟨hp.symm, habsolute, hprinted, hdown⟩

theorem required_ok {values : Values} {name value : String} (h : required values name = .ok value) :
    (values name).getD "" = value ∧ value ≠ "" := by
  unfold required at h
  obtain ⟨hvalue, h⟩ := check_bind_ok.mp h
  obtain ⟨-, h⟩ := check_bind_ok.mp h
  have hv : (values name).getD "" = value := Except.ok.inj h
  have hvalue := of_decide_eq_true (require_ok.mp hvalue)
  rw [← hv]
  exact ⟨rfl, hvalue.1⟩

/-- Paths that begin alike are compared by their names. -/
theorem overlaps_apart {a b : String} (h : SameStart a b) :
    (purePosixPath a).overlaps (purePosixPath b) = false ↔ Apart a b := by
  rw [← Bool.not_eq_true, PurePosixPath.overlaps_iff]
  constructor
  · exact fun hover hnested => hover ⟨h, hnested⟩
  · exact fun hapart hover => hapart hover.2

theorem apart_iff {a b : String} (h : (purePosixPath a).overlaps (purePosixPath b) = false) :
    Apart a b ↔ SameStart a b ∨ Apart a b := by
  constructor
  · exact .inr
  · rintro (hstart | hapart)
    · exact (overlaps_apart hstart).mp h
    · exact hapart

/-! ## Compared roots -/

/-- No two of the paths of a bundle that are compared overlap as they are spelled. -/
structure Compared (b : Bundle) : Prop where
  hosts : b.hostPaths.Pairwise fun p q => (purePosixPath p.2).overlaps (purePosixPath q.2) = false
  ordinary : ∀ p ∈ b.hostPaths, ∀ o ∈ b.ordinaryPaths, (purePosixPath p.2).overlaps (purePosixPath o.2) = false

/-- A root that is added was compared with all roots of the bundle. -/
theorem addedRoot_ok {b : Bundle} {text name message : String} {p : PurePosixPath}
    (h : addedRoot b text name message = .ok p) :
    p = purePosixPath text ∧ Spelled text ∧
      ∀ other ∈ b.hostPaths ++ b.ordinaryPaths, (purePosixPath text).overlaps (purePosixPath other.2) = false := by
  unfold addedRoot at h
  obtain ⟨path, hpath, h⟩ := bind_ok.mp h
  obtain ⟨hothers, h⟩ := check_bind_ok.mp h
  have hp : path = p := Except.ok.inj h
  subst hp
  obtain ⟨hpure, hspelled⟩ := posixPath_ok hpath
  have hothers := List.all_eq_true.mp (require_ok.mp hothers)
  refine ⟨hpure, hspelled, fun other hother => ?_⟩
  have hone := hothers other hother
  rw [hpure] at hone
  simpa using hone

theorem Compared.add {b : Bundle} (hb : Compared b) {text name message : String} {p : PurePosixPath}
    (h : addedRoot b text name message = .ok p) (root : String) {b' : Bundle}
    (hhosts : b'.hostPaths = b.hostPaths ++ [(root, pathText p)]) (hordinary : b'.ordinaryPaths = b.ordinaryPaths) :
    Compared b' := by
  obtain ⟨hpure, hspelled, hothers⟩ := addedRoot_ok h
  have htext : pathText p = text := by rw [hpure, hspelled.printed]
  constructor
  · rw [hhosts, List.pairwise_append]
    refine ⟨hb.hosts, List.pairwise_singleton _ _, fun q hq r hr => ?_⟩
    rw [List.mem_singleton.mp hr, htext, PurePosixPath.overlaps_comm]
    exact hothers q (List.mem_append_left _ hq)
  · intro q hq o ho
    rw [hordinary] at ho
    rw [hhosts, List.mem_append, List.mem_singleton] at hq
    obtain hq | hq := hq
    · exact hb.ordinary q hq o ho
    · rw [hq, htext]
      exact hothers o (List.mem_append_right _ ho)

/-! ## The rendered roots -/

theorem readOrdinary_ok {values : Values} {root : PurePosixPath} {names : List (String × String)}
    {paths : List (String × PurePosixPath)} (h : readOrdinary values root names = .ok paths) :
    (paths.map fun path => (path.1, pathText path.2)) =
      (names.map fun f => (f.1, rootText values root ("HOSTED_" ++ f.1 ++ "_ROOT") f.2)) ∧
    ∀ path ∈ paths, path.2 = purePosixPath (pathText path.2) ∧ Spelled (pathText path.2) := by
  induction names generalizing paths with
  | nil =>
    have hnil : paths = [] := (Except.ok.inj h).symm
    subst hnil
    simp
  | cons f names ih =>
    obtain ⟨path, hpath, h⟩ := bind_ok.mp h
    obtain ⟨rest, hrest, h⟩ := bind_ok.mp h
    have hpaths : (f.1, path) :: rest = paths := Except.ok.inj h
    subst hpaths
    obtain ⟨hpure, hspelled⟩ := posixPath_ok hpath
    have htext : pathText path = rootText values root ("HOSTED_" ++ f.1 ++ "_ROOT") f.2 := by
      rw [hpure, hspelled.printed]
    obtain ⟨hmap, hall⟩ := ih hrest
    constructor
    · rw [List.map_cons, List.map_cons, hmap, htext]
    · intro q hq
      obtain rfl | hq := List.mem_cons.mp hq
      · rw [htext]
        exact ⟨hpure, hspelled⟩
      · exact hall q hq

/-- The paths that are read for the roots of a bundle. -/
structure Read (values : Values) (r : Roots) : Prop where
  install : r.install = purePosixPath (installText values)
  installed : pathText r.install = installText values
  hosts : ["state", "security", "replay", "anchor", "panel_auth"].zip (r.security_roots.map pathText) = securitySettings values
  ordinary : (r.ordinary.map fun path => (path.1, pathText path.2)) = ordinarySettings values
  spelled : ∀ path ∈ r.install :: r.security_roots ++ r.ordinary.map Prod.snd,
    path = purePosixPath (pathText path) ∧ Spelled (pathText path)

theorem readRoots_ok {values : Values} {r : Roots} (h : readRoots values = .ok r) : Read values r := by
  unfold readRoots at h
  obtain ⟨installed, hinstalled, h⟩ := bind_ok.mp h
  obtain ⟨root, hroot, h⟩ := bind_ok.mp h
  obtain ⟨state, hstate, h⟩ := bind_ok.mp h
  obtain ⟨security, hsecurity, h⟩ := bind_ok.mp h
  obtain ⟨replay, hreplay, h⟩ := bind_ok.mp h
  obtain ⟨panel, hpanel, h⟩ := bind_ok.mp h
  obtain ⟨anchored, hanchored, h⟩ := bind_ok.mp h
  obtain ⟨anchor, hanchor, h⟩ := bind_ok.mp h
  obtain ⟨ordinary, hordinary, h⟩ := bind_ok.mp h
  have hr : (⟨root, state, security, replay, panel, anchor, ordinary⟩ : Roots) = r := Except.ok.inj h
  subst hr
  have htext : ∀ {text name : String} {p : PurePosixPath}, posixPath text name = .ok p → pathText p = text := by
    intro text name p hp
    obtain ⟨hpure, hspelled⟩ := posixPath_ok hp
    rw [hpure, hspelled.printed]
  have hspelled : ∀ {text name : String} {p : PurePosixPath}, posixPath text name = .ok p →
      p = purePosixPath (pathText p) ∧ Spelled (pathText p) := by
    intro text name p hp
    rw [htext hp]
    exact posixPath_ok hp
  have hinstall : root = purePosixPath (installText values) := by
    rw [installText, (required_ok hinstalled).1]
    exact (posixPath_ok hroot).1
  have hinstalled : pathText root = installText values := by
    rw [installText, (required_ok hinstalled).1]
    exact htext hroot
  obtain ⟨hmap, hall⟩ := readOrdinary_ok hordinary
  refine ⟨hinstall, hinstalled, ?_, ?_, ?_⟩
  · simp only [Roots.security_roots, List.map_cons, List.map_nil, List.zip_cons_cons, List.zip_nil_right, securitySettings,
      rootSetting, ← hinstall, htext hstate, htext hsecurity, htext hreplay, htext hanchor, htext hpanel, anchorText,
      (required_ok hanchored).1]
  · rw [hmap]
    simp only [ordinarySettings, rootSetting, ← hinstall]
  · intro path hpath
    simp only [Roots.security_roots, List.cons_append, List.nil_append, List.mem_cons, List.mem_map] at hpath
    obtain rfl | rfl | rfl | rfl | rfl | rfl | ⟨q, hq, rfl⟩ := hpath
    · exact hspelled hroot
    · exact hspelled hstate
    · exact hspelled hsecurity
    · exact hspelled hreplay
    · exact hspelled hanchor
    · exact hspelled hpanel
    · exact hall q hq

/-- What a bundle of version 1 is made of. -/
structure Made (lib : Library) (images : List (String × String)) (r : Roots) (b : Bundle) : Prop where
  hosts : b.hostPaths = ["state", "security", "replay", "anchor", "panel_auth"].zip (r.security_roots.map pathText)
  ordinary : b.ordinaryPaths = r.ordinary.map fun path => (path.1, pathText path.2)
  images_eq : b.images = images
  deployment : lib.uuid b.deploymentId = some b.deploymentId
  organization : lib.uuid b.organizationId = some b.organizationId

theorem uuidText_ok {lib : Library} {value printed : String} (h : uuidText lib value = .ok printed) :
    lib.uuid printed = some printed := by
  unfold uuidText at h
  cases hvalue : lib.uuid value with
  | none =>
    rw [hvalue] at h
    cases h
  | some text =>
    rw [hvalue] at h
    have htext : text = printed := Except.ok.inj h
    rw [htext] at hvalue
    exact lib.uuid_printed value printed hvalue

/-- The roots of version 1 are read and compared. -/
theorem renderBundle_ok {lib : Library} {values : Values} {images : List (String × String)} {b : Bundle}
    (h : renderBundle lib values images = .ok b) :
    ∃ r, readRoots values = .ok r ∧ compareRoots r = .ok () ∧ Made lib images r b := by
  unfold renderBundle at h
  obtain ⟨-, h⟩ := check_bind_ok.mp h
  obtain ⟨-, h⟩ := check_bind_ok.mp h
  obtain ⟨-, h⟩ := check_bind_ok.mp h
  obtain ⟨deployment, -, h⟩ := bind_ok.mp h
  obtain ⟨deployment_id, hdeployment, h⟩ := bind_ok.mp h
  obtain ⟨organization, -, h⟩ := bind_ok.mp h
  obtain ⟨organization_id, horganization, h⟩ := bind_ok.mp h
  obtain ⟨roots, hroots, h⟩ := bind_ok.mp h
  obtain ⟨hcompared, h⟩ := check_bind_ok.mp h
  obtain ⟨uid, -, h⟩ := bind_ok.mp h
  obtain ⟨gid, -, h⟩ := bind_ok.mp h
  obtain ⟨-, h⟩ := check_bind_ok.mp h
  obtain ⟨control, -, h⟩ := bind_ok.mp h
  obtain ⟨control_plane, -, h⟩ := bind_ok.mp h
  obtain ⟨login, -, h⟩ := bind_ok.mp h
  obtain ⟨panel, -, h⟩ := bind_ok.mp h
  obtain ⟨address, -, h⟩ := bind_ok.mp h
  have hb := Except.ok.inj h
  refine ⟨roots, hroots, hcompared, ?_⟩
  rw [← hb]
  exact ⟨rfl, rfl, rfl, uuidText_ok hdeployment, uuidText_ok horganization⟩

/-- The roots of a bundle are the given settings, and were compared. -/
structure Rendered (values : Values) (hosts : List (String × String)) (b : Bundle) : Prop where
  hosts_eq : b.hostPaths = hosts
  ordinary : b.ordinaryPaths = ordinarySettings values
  compared : Compared b
  anchor : (purePosixPath (anchorText values)).overlaps (purePosixPath (installText values)) = false
  install : Spelled (installText values)
  spelled : ∀ p ∈ hosts ++ ordinarySettings values, Spelled p.2

theorem renderBundle_base {lib : Library} {values : Values} {images : List (String × String)} {b : Bundle}
    (h : renderBundle lib values images = .ok b) : Rendered values (securitySettings values) b := by
  obtain ⟨r, hread, hcompare, hmade⟩ := renderBundle_ok h
  have hhosts := hmade.hosts
  have hordinary := hmade.ordinary
  have hr := readRoots_ok hread
  have hpure : ∀ path ∈ r.install :: r.security_roots ++ r.ordinary.map Prod.snd, purePosixPath (pathText path) = path :=
    fun path hpath => ((hr.spelled path hpath).1).symm
  have hsecurity : ∀ path ∈ r.security_roots, purePosixPath (pathText path) = path := fun path hpath =>
    hpure path (List.mem_append_left _ (List.mem_cons_of_mem _ hpath))
  have hworkload : ∀ path ∈ r.ordinary, purePosixPath (pathText path.2) = path.2 := fun path hpath =>
    hpure path.2 (List.mem_append_right _ (List.mem_map_of_mem hpath))
  unfold compareRoots at hcompare
  obtain ⟨hindependent, hcompare⟩ := check_bind_ok.mp hcompare
  obtain ⟨hpairwise, hanchor⟩ := check_bind_ok.mp hcompare
  have hroots : b.hostPaths.map (fun p => purePosixPath p.2) = r.security_roots := by
    rw [hhosts]
    simp only [Roots.security_roots, List.mem_cons, List.not_mem_nil, or_false, forall_eq_or_imp, forall_eq] at hsecurity
    simp [Roots.security_roots, hsecurity]
  have hmem : ∀ p ∈ b.hostPaths, purePosixPath p.2 ∈ r.security_roots := by
    intro p hp
    rw [← hroots]
    exact List.mem_map_of_mem hp
  refine ⟨hhosts.trans hr.hosts, hordinary.trans hr.ordinary, ⟨?_, ?_⟩, ?_, ?_, ?_⟩
  · have hpairs := pairwiseApart_iff.mp (require_ok.mp hpairwise)
    rw [← hroots] at hpairs
    exact List.pairwise_map.mp hpairs
  · intro p hp o ho
    rw [hordinary] at ho
    obtain ⟨path, hpath, rfl⟩ := List.mem_map.mp ho
    have hone := List.all_eq_true.mp (List.all_eq_true.mp (require_ok.mp hindependent) _ (hmem p hp)) path hpath
    rw [hworkload path hpath]
    simpa using hone
  · have hpath : purePosixPath (anchorText values) = r.anchor := by
      have hzip := hr.hosts
      simp only [Roots.security_roots, List.map_cons, List.map_nil, List.zip_cons_cons, List.zip_nil_right, securitySettings,
        List.cons.injEq, Prod.mk.injEq, true_and, and_true] at hzip
      rw [← hzip.2.2.2.1]
      exact hsecurity r.anchor (by simp [Roots.security_roots])
    rw [hpath, ← hr.install]
    simpa using require_ok.mp hanchor
  · have hinstall := (hr.spelled r.install List.mem_cons_self).2
    rwa [hr.installed] at hinstall
  · intro p hp
    rw [← hr.hosts, ← hr.ordinary, List.mem_append, List.mem_map] at hp
    obtain hp | ⟨path, hpath, rfl⟩ := hp
    · obtain ⟨path, hpath, htext⟩ := List.mem_map.mp (List.of_mem_zip hp).2
      rw [← htext]
      exact (hr.spelled path (List.mem_append_left _ (List.mem_cons_of_mem _ hpath))).2
    · exact (hr.spelled path.2 (List.mem_append_right _ (List.mem_map_of_mem hpath))).2

theorem Rendered.add {values : Values} {hosts : List (String × String)} {b b' : Bundle} (hb : Rendered values hosts b)
    {text name message : String} {p : PurePosixPath} (h : addedRoot b text name message = .ok p) (root : String)
    (hhosts : b'.hostPaths = b.hostPaths ++ [(root, pathText p)]) (hordinary : b'.ordinaryPaths = b.ordinaryPaths) :
    Rendered values (hosts ++ [(root, text)]) b' := by
  obtain ⟨hpure, hspelled, -⟩ := addedRoot_ok h
  refine ⟨?_, hordinary.trans hb.ordinary, hb.compared.add h root hhosts hordinary, hb.anchor, hb.install, ?_⟩
  · rw [hhosts, hb.hosts_eq, hpure, hspelled.printed]
  · intro q hq
    simp only [List.mem_append, List.mem_singleton] at hq
    obtain (hq | rfl) | hq := hq
    · exact hb.spelled q (List.mem_append_left _ hq)
    · exact hspelled
    · exact hb.spelled q (List.mem_append_right _ hq)

/-- What the policy part leaves as it is. -/
structure SameSource (b b' : Bundle) : Prop where
  images_eq : b'.images = b.images
  deployment : b'.deploymentId = b.deploymentId
  organization : b'.organizationId = b.organizationId

theorem policyProfile_ok {values : Values} {hosts : List (String × String)} {b b' : Bundle} {version : Nat}
    (hb : Rendered values hosts b)
    (h : policyProfile values (purePosixPath (installText values)) b version = .ok b') :
    Rendered values (hosts ++ [("policy", rootSetting values "HOSTED_POLICY_ROOT" "hosted-policy")]) b' ∧
      SameSource b b' ∧ b'.schemaVersion = version ∧ b'.profile = "hosted-single-node-v" ++ toString version := by
  unfold policyProfile at h
  obtain ⟨policy, hpolicy, h⟩ := bind_ok.mp h
  obtain ⟨-, h⟩ := check_bind_ok.mp h
  obtain ⟨-, h⟩ := check_bind_ok.mp h
  rw [← Except.ok.inj h]
  exact ⟨hb.add hpolicy "policy" rfl rfl, ⟨rfl, rfl, rfl⟩, rfl, rfl⟩

/-- What version 3 adds, besides a root. -/
structure MemoryAdded (values : Values) (b b' : Bundle) : Prop where
  same : SameSource b b'
  version : b'.schemaVersion = b.schemaVersion
  profile : b'.profile = b.profile
  memory : ∃ m, memoryEncryption values b.deploymentId = .ok m ∧ b'.memoryEncryption = some m
  provenance : b'.engineProvenance = some ⟨MEMORY_ENGINE_REVISION, (values "HOSTED_ENGINE_BINARY_SHA256").getD "",
    (values "HOSTED_ENGINE_ATTESTATION_SHA256").getD ""⟩

theorem memoryProfile_ok {values : Values} {hosts : List (String × String)} {b b' : Bundle}
    (hb : Rendered values hosts b) (h : memoryProfile values (purePosixPath (installText values)) b = .ok b') :
    Rendered values
      (hosts ++ [("memory_kms_commands", rootSetting values "HOSTED_MEMORY_KMS_COMMAND_ROOT" "memory-kms-commands")]) b' ∧
      MemoryAdded values b b' := by
  unfold memoryProfile at h
  obtain ⟨commands, hcommands, h⟩ := bind_ok.mp h
  obtain ⟨memory, hmemory, h⟩ := bind_ok.mp h
  rw [← Except.ok.inj h]
  exact ⟨hb.add hcommands "memory_kms_commands" rfl rfl, ⟨rfl, rfl, rfl⟩, rfl, rfl, ⟨memory, hmemory, rfl⟩, rfl⟩

/-- The two parts of a policy profile. -/
theorem applyPolicyProfile_ok {values : Values} {b b' : Bundle} {version : Nat}
    (h : applyPolicyProfile values b version = .ok b') :
    ∃ profiled, policyProfile values (purePosixPath (installText values)) b version = .ok profiled ∧
      if version = 3 then memoryProfile values (purePosixPath (installText values)) profiled = .ok b'
      else b' = profiled := by
  unfold applyPolicyProfile at h
  obtain ⟨root, hroot, h⟩ := bind_ok.mp h
  obtain ⟨profiled, hprofiled, h⟩ := bind_ok.mp h
  have hroot : root = purePosixPath (installText values) := (posixPath_ok hroot).1
  rw [hroot] at h hprofiled
  refine ⟨profiled, hprofiled, ?_⟩
  by_cases hversion : version = 3
  · rw [if_pos hversion] at h ⊢
    exact h
  · rw [if_neg hversion] at h ⊢
    exact (Except.ok.inj h).symm

theorem validateRelease_version {approved : Registry} {values : Values} {images : List (String × String)}
    (h : validateRelease approved values = .ok images) : versionOf values ∈ ["1", "2", "3"] := by
  unfold validateRelease at h
  obtain ⟨hversion, -⟩ := check_bind_ok.mp h
  exact of_decide_eq_true (require_ok.mp hversion)

/-- The base of an accepted bundle, and what each version lays over it. -/
theorem build_ok {lib : Library} {approved : Registry} {values : Values} {b : Bundle}
    (h : buildSecurityBundle lib approved values = .ok b) :
    ∃ images base, validateRelease approved values = .ok images ∧ renderBundle lib values images = .ok base ∧
      ((versionOf values = "1" ∧ b = base) ∨ (versionOf values = "2" ∧ applyPolicyProfile values base 2 = .ok b) ∨
        (versionOf values = "3" ∧ applyPolicyProfile values base 3 = .ok b)) := by
  unfold buildSecurityBundle at h
  obtain ⟨images, hrelease, h⟩ := bind_ok.mp h
  obtain ⟨base, hbase, h⟩ := bind_ok.mp h
  refine ⟨images, base, hrelease, hbase, ?_⟩
  have hversion := validateRelease_version hrelease
  simp only [List.mem_cons, List.not_mem_nil, or_false] at hversion
  obtain hone | htwo | hthree := hversion
  · rw [hone, if_neg (by decide), if_neg (by decide)] at h
    exact .inl ⟨hone, (Except.ok.inj h).symm⟩
  · rw [htwo, if_pos rfl] at h
    exact .inr (.inl ⟨htwo, h⟩)
  · rw [hthree, if_neg (by decide), if_pos rfl] at h
    exact .inr (.inr ⟨hthree, h⟩)

/-- The roots of an accepted bundle. -/
theorem build_rendered {lib : Library} {approved : Registry} {values : Values} {b : Bundle}
    (h : buildSecurityBundle lib approved values = .ok b) : Rendered values (hostSettings values) b := by
  obtain ⟨images, base, -, hbase, hb⟩ := build_ok h
  have hbase := renderBundle_base hbase
  have h21 : ¬ "2" = "1" := by decide
  have h23 : ¬ "2" = "3" := by decide
  have h31 : ¬ "3" = "1" := by decide
  have h13 : ¬ "1" = "3" := by decide
  unfold hostSettings
  obtain ⟨hone, rfl⟩ | ⟨htwo, happly⟩ | ⟨hthree, happly⟩ := hb
  · rw [hone, if_pos rfl, if_neg h13, List.append_nil, List.append_nil]
    exact hbase
  · obtain ⟨profiled, hprofiled, hrest⟩ := applyPolicyProfile_ok happly
    rw [if_neg (by decide)] at hrest
    rw [htwo, if_neg h21, if_neg h23, List.append_nil, hrest]
    exact (policyProfile_ok hbase hprofiled).1
  · obtain ⟨profiled, hprofiled, hrest⟩ := applyPolicyProfile_ok happly
    rw [if_pos rfl] at hrest
    rw [hthree, if_neg h31, if_pos rfl]
    exact (memoryProfile_ok (policyProfile_ok hbase hprofiled).1 hrest).1

theorem anchor_mem (values : Values) : ("anchor", anchorText values) ∈ hostSettings values := by
  simp [hostSettings, securitySettings]

theorem anchor_unique {values : Values} {p : String × String} (h : p ∈ hostSettings values) (hname : p.1 = "anchor") :
    p.2 = anchorText values := by
  unfold hostSettings at h
  rw [List.mem_append, List.mem_append] at h
  obtain (h | h) | h := h
  · simp only [securitySettings, List.mem_cons, List.not_mem_nil, or_false] at h
    obtain rfl | rfl | rfl | rfl | rfl := h
    · simp at hname
    · simp at hname
    · simp at hname
    · rfl
    · simp at hname
  · split at h
    · cases h
    · rw [List.mem_singleton.mp h] at hname
      simp at hname
  · split at h
    · rw [List.mem_singleton.mp h] at hname
      simp at hname
    · cases h

/-- The security roots of an accepted bundle are disjoint if and only if those are apart that
are compared and begin with different numbers of slashes. -/
theorem disjoint_iff {lib : Library} {approved : Registry} {values : Values} {b : Bundle}
    (h : buildSecurityBundle lib approved values = .ok b) : RootsDisjoint values b ↔ MixedApart values := by
  have hb := build_rendered h
  have hhosts := hb.compared.hosts
  have hordinary := hb.compared.ordinary
  rw [hb.hosts_eq] at hhosts hordinary
  rw [hb.ordinary] at hordinary
  constructor
  · rintro ⟨hpairs, hworkload, hanchor⟩
    rw [hb.hosts_eq] at hpairs hworkload hanchor
    rw [hb.ordinary] at hworkload
    have happart := hanchor ("anchor", anchorText values) (anchor_mem values) rfl
    exact ⟨hpairs.imp .inr, fun p hp o ho => .inr (hworkload p hp o ho), .inr happart⟩
  · rintro ⟨hpairs, hworkload, hanchor⟩
    constructor
    · rw [hb.hosts_eq]
      exact hhosts.imp₂ (fun p q hpq hmixed => (apart_iff hpq).mpr hmixed) hpairs
    · rw [hb.hosts_eq, hb.ordinary]
      exact fun p hp o ho => (apart_iff (hordinary p hp o ho)).mpr (hworkload p hp o ho)
    · rw [hb.hosts_eq]
      intro p hp hname
      rw [anchor_unique hp hname]
      exact (apart_iff hb.anchor).mpr hanchor

/-! ## Roots of one installation -/

/-- The groups of a printed UUID have these lengths. -/
def isPlainUuid (text : String) : Bool := decide ((text.toList.splitOn '-').map List.length = [8, 4, 4, 4, 12])

def plainUuid (text : String) : Option String := if isPlainUuid text = true then some text else none

theorem plainUuid_printed (text printed : String) (h : plainUuid text = some printed) : plainUuid printed = some printed := by
  unfold plainUuid at h ⊢
  split at h
  · next hform =>
    have htext := Option.some.inj h
    rw [htext] at hform
    rw [if_pos hform]
  · cases h

/-- The library on plain texts: an address with a host name and a path, decimal digits, a
UUID as it is printed, and a text in ASCII. -/
def plainLibrary : Library where
  urlsplit := fun text =>
    if "https://".toList <+: text.toList then
      let netloc := String.ofList ((text.toList.drop 8).takeWhile (· ≠ '/'))
      some ⟨"https", netloc, some netloc, some none, none, none, "", ""⟩
    else none
  int := fun text => if text.toList.all isDigit then some (decimal text.toList) else none
  uuid := plainUuid
  lower := fun text => String.ofList (text.toList.map asciiLower)
  uuid_printed := plainUuid_printed

def plainImage : String := "image@sha256:" ++ String.ofList (List.replicate 64 'a')

def plainDigest : String := String.ofList (List.replicate 64 'b')

theorem plainDigest_hex : isHexText 64 plainDigest.toList = true := by decide +kernel

/-- One image is verified. -/
def plainRegistry (image : String) : Option ApprovedImage :=
  if image = plainImage then
    some ⟨MEMORY_ENGINE_REVISION, plainDigest, plainDigest, plainDigest_hex, plainDigest_hex⟩
  else none

/-- An installation whose security root is the directory of the engine's state, spelled with two
slashes, and whose repositories lie in its data. -/
def sharedValues (name : String) : Option String :=
  [("HOSTED_INSTALL_ROOT", "/srv"), ("HOSTED_RUNTIME_SECURITY_VERSION", "3"),
    ("HOSTED_SECURITY_ROOT", "//srv/tandem-engine-state"), ("HOSTED_REPOS_ROOT", "/srv/tandem-data/repos"),
    ("HOSTED_AUDIT_ANCHOR_ROOT", "/audit"),
    ("HOSTED_DEPLOYMENT_ID", "b3a60fb8-2b41-43b3-9c9e-88bccfc37c15"),
    ("HOSTED_ORGANIZATION_ID", "9faebcf0-2b32-482f-82b8-df032d154abc"),
    ("HOSTED_CONTROL_PANEL_PUBLIC_URL", "https://panel.test"), ("HOSTED_CONTROL_PLANE_URL", "https://plane.test"),
    ("HOSTED_TANDEM_ENGINE_RELEASE_VERSION", ENGINE_VERSION),
    ("HOSTED_TANDEM_CONTROL_PANEL_RELEASE_VERSION", ENGINE_VERSION),
    ("HOSTED_TANDEM_CONTROL_PANEL_SOURCE_REVISION", PANEL_REVISION),
    ("HOSTED_TANDEM_ENGINE_SOURCE_REVISION", MEMORY_ENGINE_REVISION),
    ("HOSTED_ENGINE_IMAGE", plainImage), ("HOSTED_CONTROL_PANEL_IMAGE", plainImage), ("HOSTED_PROXY_IMAGE", plainImage),
    ("HOSTED_ENGINE_BINARY_SHA256", plainDigest), ("HOSTED_ENGINE_ATTESTATION_SHA256", plainDigest),
    ("HOSTED_MEMORY_ENCRYPTION_REQUIRED", "true"), ("HOSTED_MEMORY_KMS_PROVIDER", "google_cloud_kms"),
    ("HOSTED_MEMORY_KMS_RUNTIME_PRINCIPAL_ID", "reader:b3a60fb8-2b41-43b3-9c9e-88bccfc37c15"),
    ("HOSTED_MEMORY_KMS_ENCRYPT_COMMAND", "/run/tandem-memory-kms/encrypt"),
    ("HOSTED_MEMORY_KMS_DECRYPT_COMMAND", "/run/tandem-memory-kms/decrypt"),
    ("HOSTED_MEMORY_KEK_ID", "projects/p/locations/l/keyRings/r/cryptoKeys/k"), ("HOSTED_MEMORY_KEK_VERSION", "1"),
    ("HOSTED_MEMORY_KEK_ROTATION_EPOCH", "0")].lookup name

theorem shared_accepted : ∃ b, buildSecurityBundle plainLibrary plainRegistry sharedValues = .ok b := by
  have haccepted : (buildSecurityBundle plainLibrary plainRegistry sharedValues).isOk = true := by decide +kernel
  cases hb : buildSecurityBundle plainLibrary plainRegistry sharedValues with
  | error e =>
    rw [hb] at haccepted
    cases haccepted
  | ok b => exact ⟨b, rfl⟩

theorem shared_mixed : ∃ b, buildSecurityBundle plainLibrary plainRegistry sharedValues = .ok b ∧
    (RootsDisjoint sharedValues b ↔ MixedApart sharedValues) := by
  obtain ⟨b, hb⟩ := shared_accepted
  exact ⟨b, hb, disjoint_iff hb⟩

/-- Two of its roots are one directory. -/
theorem shared_not_disjoint : ∃ b, buildSecurityBundle plainLibrary plainRegistry sharedValues = .ok b ∧
    ¬ RootsDisjoint sharedValues b := by
  obtain ⟨b, hb⟩ := shared_accepted
  refine ⟨b, hb, fun hdisjoint => ?_⟩
  have hpairs := hdisjoint.hosts
  rw [(build_rendered hb).hosts_eq] at hpairs
  exact absurd hpairs (by decide +kernel)

end SecurityRoots
