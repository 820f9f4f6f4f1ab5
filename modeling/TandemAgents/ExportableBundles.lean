import TandemAgents.BackupSource

/-!
# Bundles that can be exported

The renderer and the exporter each compare the roots of a bundle. The exporter resolves them,
which spells two leading slashes as one, and compares the ordinary roots as well. On all other
points the bundle of an accepted installation passes.
-/
namespace ExportableBundles

open JsonData PurePath SecurityBundle SecurityRoots BackupSource
open Keyring hiding Bundle MAX_DOCUMENT_BYTES

set_option maxRecDepth 20000

/-- No link is on the way to a place. -/
def Linkless (files : Files) (text : String) : Prop := ∀ place, place <+: location text → files.readlink place = none

/-- All roots begin with one slash, and the ordinary roots are pairwise apart. -/
structure Exportable (values : Values) : Prop where
  install : (purePosixPath (installText values)).root = .slash
  single : ∀ p ∈ hostSettings values ++ ordinarySettings values, (purePosixPath p.2).root = .slash
  ordinary : (ordinarySettings values).Pairwise fun p q => Apart p.2 q.2

/-! ## Paths -/

section
variable {files : Files}

theorem resolveFrom_linkless {names place : List (List Char)} (hdown : ['.', '.'] ∉ names)
    (h : ∀ way, way <+: names → files.readlink (place ++ way) = none) : resolveFrom files place names = place ++ names := by
  induction names generalizing place with
  | nil => rw [resolveFrom, List.append_nil]
  | cons name names ih =>
    have hname : ¬ name = ['.', '.'] := fun heq => hdown (by rw [heq]; exact List.mem_cons_self)
    have hlink : files.readlink (place ++ [name]) = none := h [name] (by simp)
    rw [resolveFrom, if_neg hname, hlink]
    simp only
    rw [ih (fun hmem => hdown (List.mem_cons_of_mem _ hmem)), List.append_assoc, List.singleton_append]
    intro way hway
    rw [List.append_assoc]
    exact h (name :: way) (List.cons_prefix_cons.mpr ⟨rfl, hway⟩)

/-- A path without links resolves to itself where it begins with one slash. -/
theorem plainPath_iff {text : String} (hs : Spelled text) (hl : Linkless files text) (p : PurePosixPath) :
    plainPath files text = .ok p ↔ p = purePosixPath text ∧ (purePosixPath text).root = .slash := by
  have hresolved : resolveFrom files [] (purePosixPath text).tail = (purePosixPath text).tail := by
    rw [resolveFrom_linkless hs.down, List.nil_append]
    intro way hway
    rw [List.nil_append]
    exact hl way hway
  unfold plainPath
  simp only [check_bind_ok, require_ok, hresolved, hs.absolute, Bool.true_and, decide_eq_true_eq]
  constructor
  · rintro ⟨hpath, hp⟩
    exact ⟨(Except.ok.inj hp).symm, (congrArg PurePosixPath.root hpath).symm⟩
  · rintro ⟨rfl, hroot⟩
    refine ⟨?_, rfl⟩
    rw [← hroot]

/-- A dictionary of texts, as fields. -/
def fields (settings : List (String × String)) : Dict := settings.map fun f => (f.1, .str f.2)

theorem values_fields (settings : List (String × String)) :
    (fields settings).map Prod.snd = settings.map fun f => Json.str f.2 := by
  simp [fields]

theorem plainPaths_iff {settings : List (String × String)} (hs : ∀ f ∈ settings, Spelled f.2)
    (hl : ∀ f ∈ settings, Linkless files f.2) (paths : List PurePosixPath) :
    plainPaths files (settings.map fun f => Json.str f.2) = .ok paths ↔
      paths = (settings.map fun f => purePosixPath f.2) ∧ ∀ f ∈ settings, (purePosixPath f.2).root = .slash := by
  induction settings generalizing paths with
  | nil =>
    simp only [List.map_nil, plainPaths, List.not_mem_nil, false_implies, implies_true, and_true]
    constructor
    · exact fun h => (Except.ok.inj h).symm
    · exact fun h => by rw [h]
  | cons f settings ih =>
    have hf := plainPath_iff (hs f List.mem_cons_self) (hl f List.mem_cons_self)
    have hrest := ih (fun g hg => hs g (List.mem_cons_of_mem _ hg)) (fun g hg => hl g (List.mem_cons_of_mem _ hg))
    have hcons : plainPaths files ((f :: settings).map fun f => Json.str f.2) = .ok paths ↔
        ∃ p, plainPath files f.2 = .ok p ∧ ∃ ps, plainPaths files (settings.map fun f => Json.str f.2) = .ok ps ∧
          p :: ps = paths := by
      rw [List.map_cons, plainPaths]
      simp only [bind_ok]
      constructor
      · rintro ⟨value, hvalue, p, hp, ps, hps, hpaths⟩
        rw [← Except.ok.inj hvalue] at hp
        exact ⟨p, hp, ps, hps, Except.ok.inj hpaths⟩
      · rintro ⟨p, hp, ps, hps, rfl⟩
        exact ⟨f.2, rfl, p, hp, ps, hps, rfl⟩
    rw [hcons]
    constructor
    · rintro ⟨p, hp, ps, hps, rfl⟩
      obtain ⟨rfl, hroot⟩ := (hf p).mp hp
      obtain ⟨rfl, hroots⟩ := (hrest ps).mp hps
      exact ⟨rfl, List.forall_mem_cons.mpr ⟨hroot, hroots⟩⟩
    · rintro ⟨rfl, hroots⟩
      obtain ⟨hroot, hroots⟩ := List.forall_mem_cons.mp hroots
      exact ⟨_, (hf _).mpr ⟨rfl, hroot⟩, _, (hrest _).mpr ⟨rfl, hroots⟩, rfl⟩

/-- The check of the roots that are set: they begin with one slash and overlap nowhere. -/
theorem checkRoots_iff (root : PurePosixPath) {hosts ordinary : List (String × String)} {anchor : String}
    (hs : ∀ f ∈ hosts ++ ordinary, Spelled f.2) (hl : ∀ f ∈ hosts ++ ordinary, Linkless files f.2)
    (hanchor : ("anchor", anchor) ∈ hosts) (hget : (fields hosts).get "anchor" = .str anchor) :
    checkRoots files root (fields hosts) (fields ordinary) = .ok () ↔
      (∀ f ∈ hosts ++ ordinary, (purePosixPath f.2).root = .slash) ∧
        (hosts ++ ordinary).Pairwise (fun p q => (purePosixPath p.2).overlaps (purePosixPath q.2) = false) ∧
        root.overlaps (purePosixPath anchor) = false := by
  have hvalues : (fields hosts).map Prod.snd ++ (fields ordinary).map Prod.snd =
      (hosts ++ ordinary).map fun f => Json.str f.2 := by
    rw [values_fields, values_fields, List.map_append]
  have hprinted : ((hosts ++ ordinary).map fun f => purePosixPath f.2).map (fun path => some (pathText path)) =
      ((hosts ++ ordinary).map fun f => Json.str f.2).map Json.asStr := by
    rw [List.map_map, List.map_map]
    exact List.map_congr_left fun f hf => congrArg some (hs f hf).printed
  have hmem : ("anchor", anchor) ∈ hosts ++ ordinary := List.mem_append_left _ hanchor
  have hplain := plainPath_iff (hs _ hmem) (hl _ hmem)
  unfold checkRoots
  simp only [hvalues, hget, bind_ok, require_ok, plainPaths_iff hs hl]
  constructor
  · rintro ⟨paths, ⟨rfl, hroots⟩, ⟨⟩, -, ⟨⟩, hpairs, text, htext, path, hpath, hapart⟩
    have hpairs := require_ok.mp hpairs
    rw [← Except.ok.inj htext] at hpath
    obtain ⟨rfl, -⟩ := (hplain path).mp hpath
    exact ⟨hroots, List.pairwise_map.mp (pairwiseApart_iff.mp hpairs), by simpa using hapart⟩
  · rintro ⟨hroots, hpairs, hapart⟩
    have hpairwise := pairwiseApart_iff.mpr (List.pairwise_map.mpr hpairs)
    refine ⟨_, ⟨rfl, hroots⟩, (), require_ok.mpr (decide_eq_true hprinted), (), require_ok.mpr hpairwise, anchor, rfl, _,
      (hplain _).mpr ⟨rfl, hroots _ hmem⟩, ?_⟩
    simpa using hapart

end

/-! ## Bundles of version 3 -/

theorem releaseImages_engine {values : Values} {images : List (String × String)}
    (h : releaseImages values imageNames = .ok images) :
    ∃ image rest, images = ("engine", image) :: rest ∧ isImage image = true := by
  have hskip : ¬ ((values ("HOSTED_" ++ "ENGINE" ++ "_IMAGE")).getD "" = "" ∧ "ENGINE" ∈ ["ACA", "KB"]) :=
    fun hskip => absurd hskip.2 (by decide)
  unfold imageNames releaseImages at h
  rw [if_neg hskip] at h
  obtain ⟨himage, h⟩ := check_bind_ok.mp h
  obtain ⟨rest, -, h⟩ := bind_ok.mp h
  exact ⟨_, rest, (Except.ok.inj h).symm, require_ok.mp himage⟩

/-- The release of version 3 names a verified image. -/
theorem validateRelease_verified {approved : Registry} {values : Values} {images : List (String × String)}
    (h : validateRelease approved values = .ok images) (hversion : versionOf values = "3") :
    (∃ image rest, images = ("engine", image) :: rest ∧ isImage image = true) ∧
      isHexText 64 ((values "HOSTED_ENGINE_BINARY_SHA256").getD "").toList = true ∧
      isHexText 64 ((values "HOSTED_ENGINE_ATTESTATION_SHA256").getD "").toList = true := by
  unfold validateRelease at h
  obtain ⟨-, h⟩ := check_bind_ok.mp h
  obtain ⟨-, h⟩ := check_bind_ok.mp h
  obtain ⟨-, h⟩ := check_bind_ok.mp h
  obtain ⟨-, h⟩ := check_bind_ok.mp h
  obtain ⟨-, h⟩ := check_bind_ok.mp h
  obtain ⟨found, hfound, h⟩ := bind_ok.mp h
  rw [if_pos hversion] at h
  obtain ⟨hverified, h⟩ := check_bind_ok.mp h
  have hverified := require_ok.mp hverified
  rw [Option.any_eq_true] at hverified
  obtain ⟨entry, -, hentry⟩ := hverified
  obtain ⟨-, -, hbinary, hattestation⟩ := of_decide_eq_true hentry
  rw [← Except.ok.inj h, hbinary, hattestation]
  exact ⟨releaseImages_engine hfound, entry.binary_hex, entry.attestation_hex⟩

theorem memoryEncryption_ok {values : Values} {deploymentId : String} {m : MemoryEncryption}
    (h : memoryEncryption values deploymentId = .ok m) :
    m.provider = "google_cloud_kms" ∧ m.runtimePrincipalId ≠ "" ∧ m.kekId ≠ "" ∧ m.kekVersion ≠ "" ∧
      m.rotationEpoch < 2 ^ 64 := by
  unfold memoryEncryption at h
  obtain ⟨encrypted, -, h⟩ := bind_ok.mp h
  obtain ⟨-, h⟩ := check_bind_ok.mp h
  obtain ⟨provider, -, h⟩ := bind_ok.mp h
  obtain ⟨hprovider, h⟩ := check_bind_ok.mp h
  obtain ⟨principal, hprincipal, h⟩ := bind_ok.mp h
  obtain ⟨-, h⟩ := check_bind_ok.mp h
  obtain ⟨encrypt, -, h⟩ := bind_ok.mp h
  obtain ⟨decrypt, -, h⟩ := bind_ok.mp h
  obtain ⟨kek_id, hkek, h⟩ := bind_ok.mp h
  obtain ⟨-, h⟩ := check_bind_ok.mp h
  obtain ⟨version, hversion, h⟩ := bind_ok.mp h
  obtain ⟨-, h⟩ := check_bind_ok.mp h
  obtain ⟨epoch, -, h⟩ := bind_ok.mp h
  obtain ⟨hepoch, h⟩ := check_bind_ok.mp h
  have hepoch := require_ok.mp hepoch
  simp only [Bool.and_eq_true, decide_eq_true_eq] at hepoch
  rw [← Except.ok.inj h]
  exact ⟨of_decide_eq_true (require_ok.mp hprovider), (required_ok hprincipal).2, (required_ok hkek).2,
    (required_ok hversion).2, hepoch.2⟩

/-- What an accepted bundle of version 3 holds besides its roots. -/
structure VersionThree (lib : Library) (values : Values) (b : Bundle) : Prop where
  version : b.schemaVersion = 3
  profile : b.profile = "hosted-single-node-v3"
  deployment : lib.uuid b.deploymentId = some b.deploymentId
  organization : lib.uuid b.organizationId = some b.organizationId
  image : ∃ image rest, b.images = ("engine", image) :: rest ∧ isImage image = true
  memory : ∃ m, memoryEncryption values b.deploymentId = .ok m ∧ b.memoryEncryption = some m
  provenance : ∃ binary attestation, b.engineProvenance = some ⟨MEMORY_ENGINE_REVISION, binary, attestation⟩ ∧
    isHexText 64 binary.toList = true ∧ isHexText 64 attestation.toList = true

theorem build_versionThree {lib : Library} {approved : Registry} {values : Values} {b : Bundle}
    (h : buildSecurityBundle lib approved values = .ok b) (hversion : versionOf values = "3") :
    VersionThree lib values b := by
  obtain ⟨images, base, hrelease, hbase, hb⟩ := build_ok h
  obtain ⟨himage, hbinary, hattestation⟩ := validateRelease_verified hrelease hversion
  obtain ⟨r, -, -, hmade⟩ := renderBundle_ok hbase
  have happly : applyPolicyProfile values base 3 = .ok b := by
    obtain ⟨hone, -⟩ | ⟨htwo, -⟩ | ⟨-, happly⟩ := hb
    · rw [hversion] at hone
      exact absurd hone (by decide)
    · rw [hversion] at htwo
      exact absurd htwo (by decide)
    · exact happly
  obtain ⟨profiled, hprofiled, hrest⟩ := applyPolicyProfile_ok happly
  rw [if_pos rfl] at hrest
  obtain ⟨hrendered, hsame, hschema, hprofile⟩ := policyProfile_ok (renderBundle_base hbase) hprofiled
  obtain ⟨-, hadded⟩ := memoryProfile_ok hrendered hrest
  have hids : b.deploymentId = base.deploymentId ∧ b.organizationId = base.organizationId ∧ b.images = images :=
    ⟨hadded.same.deployment.trans hsame.deployment, hadded.same.organization.trans hsame.organization,
      (hadded.same.images_eq.trans hsame.images_eq).trans hmade.images_eq⟩
  constructor
  · rw [hadded.version, hschema]
  · rw [hadded.profile, hprofile]
    decide
  · rw [hids.1]
    exact hmade.deployment
  · rw [hids.2.1]
    exact hmade.organization
  · rw [hids.2.2]
    exact himage
  · rw [hadded.same.deployment]
    exact hadded.memory
  · exact ⟨_, _, hadded.provenance, hbinary, hattestation⟩

/-! ## Their documents -/

/-- The fields the exporter reads, and what it finds in them. -/
structure Reads (lib : Library) (values : Values) (d : Dict) : Prop where
  version : d.get "schema_version" = .int 3
  profile : d.get "profile" = .str "hosted-single-node-v3"
  deployment : ∃ id, d.get "deployment_id" = .str id ∧ lib.uuid id = some id
  organization : ∃ id, d.get "organization_id" = .str id ∧ lib.uuid id = some id
  hosts : d.get "host_paths" = .obj (fields (hostSettings values))
  ordinary : d.get "ordinary_paths" = .obj (fields (ordinarySettings values))
  complete : ∃ memory provenance images, section_of d "memory_encryption" = .ok memory ∧
    section_of d "engine_provenance" = .ok provenance ∧ section_of d "images" = .ok images ∧
    isComplete memory provenance images = true

/-- The fields of the written memory keys. -/
def memoryFields (m : MemoryEncryption) : Dict := (MemoryEncryption.document m).asDict.getD []

theorem memoryFields_get (m : MemoryEncryption) : (memoryFields m).get "provider" = .str m.provider ∧
    (memoryFields m).get "runtime_principal_id" = .str m.runtimePrincipalId ∧
    (memoryFields m).get "kek_id" = .str m.kekId ∧ (memoryFields m).get "kek_version" = .str m.kekVersion ∧
    (memoryFields m).get "rotation_epoch" = .int m.rotationEpoch := by
  simp [memoryFields, MemoryEncryption.document, Json.asDict, Dict.get_cons]

/-- The fields of the written provenance. -/
def provenanceFields (p : EngineProvenance) : Dict := (EngineProvenance.document p).asDict.getD []

theorem provenanceFields_get (p : EngineProvenance) :
    (provenanceFields p).get "source_revision" = .str p.sourceRevision ∧
    (provenanceFields p).get "binary_sha256" = .str p.binarySha256 ∧
    (provenanceFields p).get "attestation_sha256" = .str p.attestationSha256 := by
  simp [provenanceFields, EngineProvenance.document, Json.asDict, Dict.get_cons]

theorem memory_isComplete {m : MemoryEncryption} {values : Values} {deploymentId image binary attestation : String}
    (hm : memoryEncryption values deploymentId = .ok m) (himage : isImage image = true)
    (hbinary : isHexText 64 binary.toList = true) (hattestation : isHexText 64 attestation.toList = true)
    (rest : List (String × String)) :
    isComplete (memoryFields m) (provenanceFields ⟨MEMORY_ENGINE_REVISION, binary, attestation⟩)
      (fields (("engine", image) :: rest)) = true := by
  obtain ⟨hprovider, hprincipal, hkek, hversion, hepoch⟩ := memoryEncryption_ok hm
  obtain ⟨hget, hget_principal, hget_kek, hget_version, hget_epoch⟩ := memoryFields_get m
  obtain ⟨hget_source, hget_binary, hget_attestation⟩ := provenanceFields_get ⟨MEMORY_ENGINE_REVISION, binary, attestation⟩
  have hrevision : isHexText 40 MEMORY_ENGINE_REVISION.toList = true := by decide +kernel
  have hnat : (m.rotationEpoch : Int) < 2 ^ 64 := by exact_mod_cast hepoch
  have hrange : decide ((0 : Int) ≤ m.rotationEpoch ∧ (m.rotationEpoch : Int) < 2 ^ 64) = true :=
    decide_eq_true ⟨Int.natCast_nonneg _, hnat⟩
  have htruthy : ∀ text, text ≠ "" → (Json.str text).truthy = true := fun _ h => decide_eq_true h
  have hprovided : isText (.str m.provider) "google_cloud_kms" = true := decide_eq_true (congrArg some hprovider)
  have hhex : ∀ n text, isHexText n text.toList = true → isHexField n (.str text) = true := fun _ _ h => h
  have hengine : ((fields (("engine", image) :: rest)).get "engine").asStr.any isImage = true := by
    rw [fields, List.map_cons, Dict.get_cons, if_pos rfl]
    exact himage
  unfold isComplete
  rw [hget, hprovided, List.all_cons, hget_principal, htruthy _ hprincipal, List.all_cons, hget_kek, htruthy _ hkek,
    List.all_cons, hget_version, htruthy _ hversion, List.all_nil, hget_epoch, hget_source, hhex _ _ hrevision,
    hget_binary, hhex _ _ hbinary, hget_attestation, hhex _ _ hattestation, hengine]
  simp only
  rw [hrange]
  rfl

theorem reads_document {lib : Library} {approved : Registry} {values : Values} {b : Bundle}
    (h : buildSecurityBundle lib approved values = .ok b) (hversion : versionOf values = "3") :
    Reads lib values (Bundle.document b) := by
  have hb := build_rendered h
  have hthree := build_versionThree h hversion
  obtain ⟨image, rest, himages, himage⟩ := hthree.image
  obtain ⟨m, hm, hmemory⟩ := hthree.memory
  obtain ⟨binary, attestation, hprovenance, hbinary, hattestation⟩ := hthree.provenance
  have hdocument : Bundle.document b =
      [("schema_version", .int 3), ("profile", .str "hosted-single-node-v3"), ("deployment_id", .str b.deploymentId),
        ("organization_id", .str b.organizationId), ("images", .obj (fields (("engine", image) :: rest))), ("uid", .int b.uid),
        ("gid", .int b.gid), ("ordinary_paths", .obj (fields (ordinarySettings values))),
        ("host_paths", .obj (fields (hostSettings values))), ("memory_encryption", MemoryEncryption.document m),
        ("engine_provenance", EngineProvenance.document ⟨MEMORY_ENGINE_REVISION, binary, attestation⟩)] := by
    rw [Bundle.document, hthree.version, hthree.profile, himages, hb.ordinary, hb.hosts_eq, hmemory, hprovenance]
    rfl
  rw [hdocument]
  constructor
  · simp [Dict.get_cons]
  · simp [Dict.get_cons]
  · exact ⟨b.deploymentId, by simp [Dict.get_cons], hthree.deployment⟩
  · exact ⟨b.organizationId, by simp [Dict.get_cons], hthree.organization⟩
  · simp [Dict.get_cons]
  · simp [Dict.get_cons]
  · refine ⟨_, _, _, ?_, ?_, ?_, memory_isComplete hm himage hbinary hattestation rest⟩
    · simp [section_of, Dict.contains, Dict.get_cons, memoryFields, MemoryEncryption.document, Json.asDict]
    · simp [section_of, Dict.contains, Dict.get_cons, provenanceFields, EngineProvenance.document, Json.asDict]
    · simp [section_of, Dict.contains, Dict.get_cons, Json.asDict]

theorem uuidField_ok {lib : Library} {id : String} (h : lib.uuid id = some id) : uuidField lib (.str id) = .ok id := by
  unfold uuidField
  have hread : (Json.str id).asStr.bind lib.uuid = some id := h
  have htext : isText (.str id) id = true := decide_eq_true rfl
  rw [hread]
  exact bind_ok.mpr ⟨id, rfl, check_bind_ok.mpr ⟨require_ok.mpr htext, rfl⟩⟩

theorem hostSettings_required {values : Values} (hversion : versionOf values = "3") :
    sameKeys (fields (hostSettings values)) (REQUIRED_HOST_ROOTS ++ ["memory_kms_commands"]) = true ∧
      (fields (hostSettings values)).get "anchor" = .str (anchorText values) := by
  have hnot : ¬ "3" = "1" := by decide
  constructor
  · simp [hostSettings, securitySettings, hversion, fields, sameKeys, REQUIRED_HOST_ROOTS, Dict.contains]
  · simp [hostSettings, securitySettings, hversion, fields, Dict.get_cons]

theorem ordinarySettings_required (values : Values) :
    sameKeys (fields (ordinarySettings values)) REQUIRED_ORDINARY_ROOTS = true := by
  simp [ordinarySettings, ordinarySuffixes, fields, sameKeys, REQUIRED_ORDINARY_ROOTS, Dict.contains]

/-- The source check of a document it reads as a bundle of version 3 is one of its roots. -/
theorem checkSource_reads {lib : Library} {values : Values} {d : Dict} (hd : Reads lib values d)
    (hversion : versionOf values = "3") {files : Files} {size : Nat} :
    checkSource lib files (installText values) size (.obj d) = .ok () ↔
      ∃ root, plainPath files (installText values) = .ok root ∧ size ≤ MAX_DOCUMENT_BYTES ∧
        checkRoots files root (fields (hostSettings values)) (fields (ordinarySettings values)) = .ok () := by
  obtain ⟨deployment, hdeployment, hprinted⟩ := hd.deployment
  obtain ⟨organization, horganization, hprinted'⟩ := hd.organization
  obtain ⟨memory, provenance, images, hmemory, hprovenance, himages, hcomplete⟩ := hd.complete
  have hkeys := (hostSettings_required hversion).1
  have hordinary := ordinarySettings_required values
  have hthree : isNumber (.int 3) 3 = true := rfl
  have hprofile : isText (.str "hosted-single-node-v3") "hosted-single-node-v3" = true := decide_eq_true rfl
  have hrequire : ∀ message, require true message = .ok () := fun _ => rfl
  unfold checkSource
  simp only [Json.asDict, Option.getD_some, hd.version, hd.profile, hd.hosts, hd.ordinary, hdeployment, horganization,
    uuidField_ok hprinted, uuidField_ok hprinted', hkeys, hordinary, hthree, hprofile, hmemory, hprovenance, himages,
    Option.isSome_some, Bool.and_self, hrequire]
  constructor
  · intro h
    obtain ⟨root, hroot, h⟩ := bind_ok.mp h
    obtain ⟨hsize, h⟩ := check_bind_ok.mp h
    obtain ⟨-, h⟩ := check_bind_ok.mp h
    obtain ⟨-, -, h⟩ := bind_ok.mp h
    obtain ⟨-, -, h⟩ := bind_ok.mp h
    obtain ⟨-, h⟩ := check_bind_ok.mp h
    obtain ⟨hroots, -⟩ := check_bind_ok.mp h
    exact ⟨root, hroot, of_decide_eq_true (require_ok.mp hsize), hroots⟩
  · rintro ⟨root, hroot, hsize, hroots⟩
    have hlast : checkRoots files root (fields (hostSettings values)) (fields (ordinarySettings values)) >>=
        (fun _ => require (isComplete memory provenance images) "v3 memory or engine provenance is incomplete") =
        .ok () := check_bind_ok.mpr ⟨hroots, require_ok.mpr hcomplete⟩
    exact bind_ok.mpr ⟨root, hroot, check_bind_ok.mpr ⟨require_ok.mpr (decide_eq_true hsize), hlast⟩⟩

/-- The bundle of an accepted installation of version 3 passes the exporter's check if and only
if all its roots begin with one slash, its ordinary roots are pairwise apart, and its document
is not too long. -/
theorem passes_iff {lib : Library} {approved : Registry} {values : Values} {b : Bundle}
    (h : buildSecurityBundle lib approved values = .ok b) (hversion : versionOf values = "3") {files : Files}
    (hinstall : Linkless files (installText values))
    (hroots : ∀ p ∈ hostSettings values ++ ordinarySettings values, Linkless files p.2) (size : Nat) :
    checkSource lib files (installText values) size (.obj (Bundle.document b)) = .ok () ↔
      Exportable values ∧ size ≤ MAX_DOCUMENT_BYTES := by
  have hb := build_rendered h
  have hhosts := hb.compared.hosts
  have hordinary := hb.compared.ordinary
  rw [hb.hosts_eq] at hhosts hordinary
  rw [hb.ordinary] at hordinary
  have hcheck := fun root => checkRoots_iff root hb.spelled hroots (anchor_mem values)
    (hostSettings_required hversion).2
  rw [checkSource_reads (reads_document h hversion) hversion]
  constructor
  · rintro ⟨root, hroot, hsize, hchecked⟩
    obtain ⟨rfl, hsingle⟩ := (plainPath_iff hb.install hinstall root).mp hroot
    obtain ⟨hall, hpairs, -⟩ := (hcheck _).mp hchecked
    have hworkload := (List.pairwise_append.mp hpairs).2.1
    refine ⟨⟨hsingle, hall, hworkload.imp_of_mem fun {p q} hp hq hpq => ?_⟩, hsize⟩
    have hstart : SameStart p.2 q.2 := (hall p (List.mem_append_right _ hp)).trans (hall q (List.mem_append_right _ hq)).symm
    exact (overlaps_apart hstart).mp hpq
  · rintro ⟨⟨hsingle, hall, hapart⟩, hsize⟩
    refine ⟨_, (plainPath_iff hb.install hinstall _).mpr ⟨rfl, hsingle⟩, hsize, (hcheck _).mpr ⟨hall, ?_, ?_⟩⟩
    · rw [List.pairwise_append]
      refine ⟨hhosts, hapart.imp_of_mem fun {p q} hp hq hpq => ?_, hordinary⟩
      have hstart : SameStart p.2 q.2 := (hall p (List.mem_append_right _ hp)).trans (hall q (List.mem_append_right _ hq)).symm
      exact (overlaps_apart hstart).mpr hpq
    · rw [PurePosixPath.overlaps_comm]
      exact hb.anchor

/-- A file system without links. -/
def plainFiles : Files where
  readlink := fun _ => none
  follow := fun place target names => place ++ target :: names

theorem shared_passes : ∃ b, buildSecurityBundle plainLibrary plainRegistry sharedValues = .ok b ∧
    (checkSource plainLibrary plainFiles (installText sharedValues) 4096 (.obj (Bundle.document b)) = .ok () ↔
      Exportable sharedValues ∧ 4096 ≤ MAX_DOCUMENT_BYTES) := by
  obtain ⟨b, hb⟩ := shared_accepted
  have hversion : versionOf sharedValues = "3" := by decide +kernel
  exact ⟨b, hb, passes_iff hb hversion (fun _ _ => rfl) (fun _ _ _ _ => rfl) 4096⟩

/-- The repositories in the data are a bundle's roots, and no source of a backup. -/
theorem shared_not_exported : ∃ b, buildSecurityBundle plainLibrary plainRegistry sharedValues = .ok b ∧
    checkSource plainLibrary plainFiles (installText sharedValues) 4096 (.obj (Bundle.document b)) ≠ .ok () := by
  obtain ⟨b, hb⟩ := shared_accepted
  have hversion : versionOf sharedValues = "3" := by decide +kernel
  refine ⟨b, hb, fun hpasses => ?_⟩
  obtain ⟨root, -, -, hroots⟩ := (checkSource_reads (reads_document hb hversion) hversion).mp hpasses
  have hchecked := (checkRoots_iff root (build_rendered hb).spelled (fun _ _ _ _ => rfl) (anchor_mem _)
    (hostSettings_required hversion).2).mp hroots
  have hordinary := (List.pairwise_append.mp hchecked.2.1).2.1
  exact absurd hordinary (by decide +kernel)

end ExportableBundles
