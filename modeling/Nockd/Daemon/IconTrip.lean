import Nockd.Api.DeployCommand
import Nockd.Api.IconWrites
import Nockd.Daemon.Icons
import Nockd.Daemon.Passes
import Nockd.Data.Base64

/-!
# The way of an icon

The client makes a URI out of an image file, the daemon checks it, stores it and takes it
apart again. Once a deploy or a reload with an image file has succeeded, the app's icon is
answered with the bytes of the file, in every run in which nobody else writes that icon.
-/

namespace Nockd

namespace Daemon

open Api Config Interleaving Registry Store Supervisor

variable {paths : Paths} {crates : Crates} {json : JsonText} {header : String → Bool}
  {P : (List Char → Option Bytes) → Prop} {name uri : String} {i : ℕ} {s s' : Sys}

/-- The call writes the icon of the app. -/
def setsIcon (name : String) (op : Call) : Bool := op.statement.any (·.setsIcon name)

/-- The thread `i` finds only files that meet `P`, and no other thread writes the icon of
the app. -/
def Sys.Unrivalled (s : Sys) (name : String) (i : ℕ) (P : (List Char → Option Bytes) → Prop) :
    Action → Prop
  | .run j env => ∀ op ∈ s.call? j,
      if j = i then op = .files → P env.files else setsIcon name op = false
  | _ => True

instance (s : Sys) (name : String) (i : ℕ) (P : (List Char → Option Bytes) → Prop)
    [∀ files, Decidable (P files)] (a : Action) : Decidable (s.Unrivalled name i P a) :=
  match a with
  | .run j env => inferInstanceAs (Decidable (∀ op ∈ s.call? j,
      if j = i then op = .files → P env.files else setsIcon name op = false))
  | .arrive _ => .isTrue trivial
  | .fail _ _ => .isTrue trivial
  | .exit _ _ => .isTrue trivial
  | .collect _ => .isTrue trivial
  | .foreign _ => .isTrue trivial
  | .beginStop => .isTrue trivial
  | .stop _ => .isTrue trivial

/-- What a thread can be that is to store the icon `uri` of the app. -/
inductive Carries (crates : Crates) (P : (List Char → Option Bytes) → Prop) (name uri : String)
    (r : Registry) : Thread → Prop where
  | stores {t : Thread} : Stores crates P name uri r t → Carries crates P name uri r t
  | asked {icon : Option String} {path : String} {d : DeploySection} :
      r.iconEntry name = some (icon, some path) →
      (∀ files, P files → loadManifest crates files path = .ok d ∧
        manifestIcon crates files path d.icon = .ok (some uri)) →
      Carries crates P name uri r (reload crates name)

theorem Carries.congr {r r' : Registry} {t : Thread} (h : Carries crates P name uri r t)
    (hentry : r'.iconEntry name = r.iconEntry name) : Carries crates P name uri r' t := by
  cases h with
  | stores h => exact .stores (h.congr hentry)
  | asked hfound hfinds => exact .asked (hentry.trans hfound) hfinds

section Turn

variable {op : Call} {next : Except String op.Reply → Thread} {env : Env} {w : World}

theorem Carries.error {r : Registry} (h : Carries crates P name uri r (.call op next))
    (m : String) : Carries crates P name uri r (next (.error m)) := by
  generalize ht : (Program.call op next : Thread) = t at h
  cases h with
  | stores h =>
      rw [← ht] at h
      exact .stores (h.2 m)
  | asked hfound hfinds =>
      cases ht
      exact .stores (stores_throw _)

/-- A call of the thread that succeeds. -/
theorem Carries.ok (h : Carries crates P name uri w.host.registry (.call op next))
    (hfiles : op = .files → P env.files) :
    Carries crates P name uri (perform paths crates env w op).1.host.registry
      (next (.ok (perform paths crates env w op).2)) := by
  generalize ht : (Program.call op next : Thread) = t at h
  cases h with
  | stores h =>
      rw [← ht] at h
      exact .stores (h.ok hfiles)
  | @asked icon path d hfound hfinds =>
      obtain ⟨e, heq⟩ := @reload_eq crates name
      rw [heq] at ht
      cases ht
      have hentry : (perform paths crates env w (.getApp name)).1.host.registry.iconEntry name =
          some (icon, some path) := perform_iconEntry.trans hfound
      have hpath : ∀ app ∈ (perform paths crates env w (.getApp name)).2,
          app.manifestPath = some path := by
        intro app happ
        change (if env.queryErr then none else w.host.registry.getApp name) = some app at happ
        split at happ
        case isTrue => cases happ
        case isFalse =>
          rw [iconEntry_eq, happ, Option.map_some, Option.some.injEq] at hfound
          exact congrArg Prod.snd hfound
      cases happ : (perform paths crates env w (.getApp name)).2 with
      | none => exact .stores (stores_throw _)
      | some app =>
          simp only [Program.monad_pure, Program.bind, hpath app happ]
          exact .stores (reloadFrom_stores (by simp [hentry]) hfinds)

end Turn

/-! ## Runs -/

/-- The request that is to store the icon is under way, or has been answered. -/
structure Bringing (crates : Crates) (P : (List Char → Option Bytes) → Prop) (name uri : String)
    (i : ℕ) (s : Sys) : Prop where
  stopping : ∀ p, s.stopping = some p → p.Only Stops
  thread : ∃ t, s.threads[i]? = some t ∧ Carries crates P name uri s.world.host.registry t

theorem Bringing.step (h : Bringing crates P name uri i s) {a : Action}
    (hstep : Sys.Step paths crates s a s') (ha : s.Unrivalled name i P a) :
    Bringing crates P name uri i s' := by
  refine ⟨stops_act hstep h.stopping, ?_⟩
  obtain ⟨t, ht, hcarries⟩ := h.thread
  have hi : i < s.threads.length := (List.getElem?_eq_some_iff.1 ht).1
  cases hstep with
  | arrive r => exact ⟨t, by rwa [List.getElem?_append_left hi], hcarries⟩
  | run j env op next hj hopen =>
      by_cases hij : j = i
      · subst hij
        rw [ht, Option.some.injEq] at hj
        subst hj
        have hfiles := ha op (Sys.call?_eq ht)
        rw [if_pos rfl] at hfiles
        exact ⟨_, List.getElem?_set_self hi, hcarries.ok hfiles⟩
      · have hother := ha op (Sys.call?_eq hj)
        rw [if_neg hij] at hother
        refine ⟨t, by rwa [List.getElem?_set_ne hij], hcarries.congr ?_⟩
        rw [perform_iconEntry]
        unfold setsIcon at hother
        cases hst : op.statement with
        | none => rfl
        | some st =>
            rw [hst] at hother
            exact Statement.iconEntry_of_not_sets hother _
  | fail j message op next hj hfallible =>
      by_cases hij : j = i
      · subst hij
        rw [ht, Option.some.injEq] at hj
        subst hj
        exact ⟨_, List.getElem?_set_self hi, hcarries.error message⟩
      · exact ⟨t, by rwa [List.getElem?_set_ne hij], hcarries⟩
  | stop env op next hp hopen =>
      refine ⟨t, ht, hcarries.congr ?_⟩
      exact iconEntry_of_quiet (perform_quiet paths crates env s.world
        (h.stopping _ hp).1.statement)
  | _ => exact ⟨t, ht, hcarries⟩

theorem stopping_stops (h : Reachable (Sys.step paths crates) Sys.Started s) :
    ∀ p, s.stopping = some p → p.Only Stops :=
  h.invariant (fun _ hstart p hp => by simp [hstart.stopping] at hp)
    fun _ _ _ ih _ hstep => stops_act (Sys.step_cases hstep) ih

/-- The request arrives in a state of a run that meets `start`. From then on its handler finds
only files that meet `P`, and nobody else writes the icon of the app. Once the request has
succeeded, the app's icon is answered with `image`. -/
def Shows (paths : Paths) (crates : Crates) (header : String → Bool) (r : Request)
    (start : Sys → Prop) (P : (List Char → Option Bytes) → Prop) (name : String)
    (image : IconImage) : Prop :=
  ∀ s₀ s₁ s x, Reachable (Sys.step paths crates) Sys.Started s₀ → start s₀ →
    s₀.step paths crates (.arrive r) = some s₁ →
    ReachableWhen (Sys.step paths crates) (· = s₁)
      (fun s a => s.Unrivalled name s₀.threads.length P a) s →
    s.answer? s₀.threads.length = some x →
    appIcon crates header s.world.host.registry name = .ok image

theorem appIcon_of_entry {r : Registry} {path : Option String} {mime : String} {bytes : Bytes}
    (hentry : r.iconEntry name = some (some uri, path))
    (hdecode : decodeDataUri crates uri = some (mime, bytes)) (hheader : header mime = true) :
    appIcon crates header r name = .ok { contentType := mime, bytes } := by
  rw [iconEntry_eq] at hentry
  obtain ⟨app, happ, hfields⟩ := Option.map_eq_some_iff.1 hentry
  have hicon : app.icon = some uri := congrArg Prod.fst hfields
  unfold appIcon
  simp only [happ, hicon, hdecode, hheader, if_true]

/-- A request whose handler carries the icon shows it. -/
theorem shows_of_carries {r : Request} {start : Sys → Prop} {mime : String} {bytes : Bytes}
    (hdecode : decodeDataUri crates uri = some (mime, bytes)) (hheader : header mime = true)
    (hcarries : ∀ s₀, start s₀ →
      Carries crates P name uri s₀.world.host.registry (r.handler paths crates)) :
    Shows paths crates header r start P name { contentType := mime, bytes } := by
  intro s₀ s₁ s x hreach hstart harrive hrun hdone
  have hbringing : Bringing crates P name uri s₀.threads.length s := by
    refine hrun.invariant ?_ fun _ _ _ ih ha hstep => ih.step (Sys.step_cases hstep) ha
    rintro _ rfl
    cases harrive
    exact ⟨fun p hp => stopping_stops hreach p hp, _, List.getElem?_concat_length,
      hcarries s₀ hstart⟩
  obtain ⟨t, ht, hcarries⟩ := hbringing.thread
  rw [Sys.answer?_eq_some hdone, Option.some.injEq] at ht
  generalize hs : s.world.host.registry = r at hcarries
  cases hcarries with
  | stores hstores =>
      subst ht
      obtain ⟨path, hentry⟩ := hstores
      exact appIcon_of_entry hentry hdecode hheader
  | asked =>
      obtain ⟨e, heq⟩ := @reload_eq crates name
      rw [heq] at ht
      cases ht

/-- A file with this name and these bytes is an image within the cap, of a type that can be
shown. -/
structure IsImage (icon mime : String) (bytes : Bytes) : Prop where
  type : mimeOf (extension icon.toList) = some mime
  size : bytes.length ≤ maxIconBytes

/-- The URI of an image passes the check, and it is taken apart again. -/
theorem IsImage.resolves {icon mime : String} {bytes : Bytes} (h : IsImage icon mime bytes)
    (hbase64 : Base64Text crates) (hicon : IconPath icon) :
    ∃ uri, (∀ files dir, files (join dir icon.toList) = some bytes →
        resolveIcon crates files dir icon = .ok uri) ∧
      validateIcon crates uri = .ok () ∧ decodeDataUri crates uri = some (mime, bytes) := by
  have hdecode : decodeDataUri crates (imageUri crates mime bytes) = some (mime, bytes) :=
    decodeDataUri_encode hbase64 (mimeOf_mem h.type) bytes
  exact ⟨_, fun files dir hread => resolveIcon_image hicon hread h.size h.type,
    validateIcon_ok_iff.2 ⟨mime, bytes, hdecode, h.size⟩, hdecode⟩

/-- The app comes from this manifest. -/
def Sys.FromManifest (name path : String) (s : Sys) : Prop :=
  ∃ row, s.world.host.registry.getApp name = some row ∧ row.manifestPath = some path

theorem Sys.FromManifest.iconEntry {path : String} (h : s.FromManifest name path) :
    ∃ icon, s.world.host.registry.iconEntry name = some (icon, some path) := by
  obtain ⟨app, happ, hpath⟩ := h
  refine ⟨app.icon, ?_⟩
  rw [iconEntry_eq, happ, Option.map_some, hpath]

section Parts

variable {icon mime : String} {bytes : Bytes} {m : Workstation} {args : DeployArgs}
  {c : DeployConfig}

/-- What the command posts for an image is stored and shown. -/
theorem deploy_shows (hbase64 : Base64Text crates)
    (hheader : ∀ mime ∈ imageTypes, header mime = true) (hicon : IconPath icon)
    (himage : IsImage icon mime bytes) (hconfig : m.config crates args = .ok c)
    (hc : c.icon = some icon) (hread : m.files (join (m.iconDir args) icon.toList) = some bytes)
    {req received : DeployRequest} (hreq : m.deploy crates json args = .ok req)
    (hkeeps : json.Keeps req.toJson) {body : String} (hbody : body ∈ m.posts crates json args)
    (hreceived : receive json body = .ok received) :
    Shows paths crates header (.deploy received) (fun _ => True) (fun _ => True) req.name
      { contentType := mime, bytes } := by
  obtain ⟨uri, hresolve, -, hdecode⟩ := himage.resolves hbase64 hicon
  have hsent : req.icon = some uri := by
    have hsent := deploy_icon hreq hconfig
    unfold Workstation.icon at hsent
    rw [hc] at hsent
    simp only [hresolve _ _ hread, Except.map, Except.ok.injEq] at hsent
    exact hsent.symm
  unfold Workstation.posts at hbody
  rw [hreq] at hbody
  obtain rfl := List.mem_singleton.1 hbody
  obtain rfl := receive_sent hkeeps hreceived
  exact shows_of_carries hdecode (hheader mime (mimeOf_mem himage.type)) fun s₀ _ =>
    .stores (deploy_stores hsent)

/-- What a reload makes of an image is stored and shown. -/
theorem reload_shows (hbase64 : Base64Text crates)
    (hheader : ∀ mime ∈ imageTypes, header mime = true) (hicon : IconPath icon)
    (himage : IsImage icon mime bytes) (path : String) {d : DeploySection}
    (hd : d.icon = some icon) :
    Shows paths crates header (.reload name) (Sys.FromManifest name path)
      (fun files => loadManifest crates files path = .ok d ∧
        files (join ((parent path.toList).getD ['.']) icon.toList) = some bytes)
      name { contentType := mime, bytes } := by
  obtain ⟨uri, hresolve, -, hdecode⟩ := himage.resolves hbase64 hicon
  refine shows_of_carries hdecode (hheader mime (mimeOf_mem himage.type)) fun s₀ hfrom => ?_
  obtain ⟨old, hentry⟩ := hfrom.iconEntry
  refine .asked hentry fun files ⟨hload, hread⟩ => ⟨hload, ?_⟩
  unfold manifestIcon
  rw [hd]
  simp only [hresolve _ _ hread, Except.map]

end Parts

/-- An image file passes `validate_icon` as a URI, and after a deploy or a reload the app's icon
is answered with its bytes and its type. With any other file the command posts nothing. -/
theorem icon_round_trip (hbase64 : Base64Text crates)
    (hheader : ∀ mime ∈ imageTypes, header mime = true) {icon : String} (hicon : IconPath icon) :
    (∀ mime bytes, IsImage icon mime bytes →
      (∃ uri, (∀ files dir, files (join dir icon.toList) = some bytes →
          resolveIcon crates files dir icon = .ok uri) ∧ validateIcon crates uri = .ok ()) ∧
      (∀ (m : Workstation) (args : DeployArgs) (c : DeployConfig),
        m.config crates args = .ok c → c.icon = some icon →
        m.files (join (m.iconDir args) icon.toList) = some bytes →
        ∀ req, m.deploy crates json args = .ok req → json.Keeps req.toJson →
        ∀ body ∈ m.posts crates json args, ∀ received, receive json body = .ok received →
          Shows paths crates header (.deploy received) (fun _ => True) (fun _ => True) req.name
            { contentType := mime, bytes }) ∧
      ∀ (name path : String) (d : DeploySection), d.icon = some icon →
        Shows paths crates header (.reload name) (Sys.FromManifest name path)
          (fun files => loadManifest crates files path = .ok d ∧
            files (join ((parent path.toList).getD ['.']) icon.toList) = some bytes)
          name { contentType := mime, bytes }) ∧
    ∀ (m : Workstation) (args : DeployArgs) (c : DeployConfig) (bytes : Bytes),
      m.config crates args = .ok c → c.icon = some icon → FilesOnly m.files →
      m.files (join (m.iconDir args) icon.toList) = some bytes →
      maxIconBytes < bytes.length ∨ mimeOf (extension icon.toList) = none →
        (∃ e, m.deploy crates json args = .error e) ∧ m.posts crates json args = [] := by
  refine ⟨fun mime bytes himage => ⟨?_, ?_, ?_⟩, ?_⟩
  · obtain ⟨uri, hresolve, hvalid, -⟩ := himage.resolves hbase64 hicon
    exact ⟨uri, hresolve, hvalid⟩
  · intro m args c hconfig hc hread req hreq hkeeps body hbody received hreceived
    exact deploy_shows hbase64 hheader hicon himage hconfig hc hread hreq hkeeps hbody hreceived
  · intro name path d hd
    exact reload_shows hbase64 hheader hicon himage path hd
  · intro m args c bytes hconfig hc hfiles hread hbad
    obtain ⟨e, hresolve⟩ := @resolveIcon_refused crates _ _ _ _ hfiles hicon hread hbad
    have hrefused : m.icon crates args c = .error e := by
      unfold Workstation.icon
      rw [hc]
      simp only [hresolve, Except.map]
    have hdeploy := @deploy_refused _ json _ _ _ _ hconfig hrefused
    exact ⟨⟨e, hdeploy⟩, posts_eq_nil hdeploy⟩

section Photo

def photoText : String := "[deploy]\napp = \"a\"\nbin = \"/b\"\nicon = \"i.PNG\"\n"

def photoSection : DeploySection := { app := "a", bin := some "/b", icon := some "i.PNG" }

/-- Crates with a base64, which know this manifest. -/
def photoCrates : Crates :=
  { Crates.plainCrates [] [] with
    base64Encode := fun bytes => String.ofList (Base64.encode bytes)
    base64Decode := fun text =>
      match Base64.decode text.toList with
      | some bytes => .ok bytes
      | none => .error "Invalid padding"
    parseManifest := fun text => if text = photoText then some photoSection else none }

theorem photoCrates_base64 : Base64Text photoCrates where
  decode b := by
    change (match Base64.decode (String.ofList (Base64.encode b)).toList with
      | some bytes => Except.ok bytes
      | none => Except.error "Invalid padding") = _
    rw [String.toList_ofList, Base64.decode_encode]
  solid b c hc := by
    have hsolid : ('=' :: Base64.alphabet).all (!isWhiteSpace ·) = true := by decide +kernel
    change c ∈ (String.ofList (Base64.encode b)).toList at hc
    rw [String.toList_ofList] at hc
    have hmem : c ∈ '=' :: Base64.alphabet := by
      rcases Base64.mem_encode c hc with h | rfl
      · exact List.mem_cons_of_mem _ h
      · exact List.mem_cons_self
    simpa using List.all_eq_true.1 hsolid c hmem

/-- The manifest, a binary and one image. -/
def photoFiles (image : Bytes) (path : List Char) : Option Bytes :=
  if path = "nockd.toml".toList ∨ path = "/m/nockd.toml".toList then some (asBytes photoText)
  else if path = "/b".toList then some [0x7f]
  else if path = "/m/i.PNG".toList ∨ path = "./i.bmp".toList then some image
  else none

theorem photoFiles_only (image : Bytes) : FilesOnly (photoFiles image) := by
  intro path hfolder
  have hne {file : List Char} (h : ¬ FolderPath file) : path ≠ file := by
    rintro rfl
    exact h hfolder
  unfold photoFiles
  rw [if_neg, if_neg, if_neg]
  · exact not_or.2 ⟨hne (by decide +kernel), hne (by decide +kernel)⟩
  · exact hne (by decide +kernel)
  · exact not_or.2 ⟨hne (by decide +kernel), hne (by decide +kernel)⟩

def photo : Bytes := [0x89, 0x50, 0x4e, 0x47]

def photoStation : Workstation where
  files := photoFiles photo
  canonicalize _ := some "/m/nockd.toml"
  buildProject _ _ := .error "no such project"
  defaultTarget := "t"
  builderKey := .error "could not determine home directory"
  now := 0

def photoArgs : DeployArgs := { manifest := some "nockd.toml", target := "t", noAttest := true }

/-- A deploy by flags with an image of another type. -/
def bitmapArgs : DeployArgs :=
  { name := some "a", bin := some "/b", icon := some "i.bmp", target := "t", noAttest := true }

def photoRequest : DeployRequest where
  name := "a"
  targetTriple := "t"
  binB64 := "fw=="
  manifestPath := some "/m/nockd.toml"
  icon := some "data:image/png;base64,iVBORw=="

def photoJson : JsonText := Crates.plainText [photoRequest.toJson]

/-- A run of thread `i`, which finds only files that meet `P`. -/
def servedBy (i : ℕ) (P : (List Char → Option Bytes) → Prop) [∀ files, Decidable (P files)]
    (r : Request) (s : Sys) (as : List Action) : Option Sys :=
  (s.step (Paths.ofRoot "/r") photoCrates (.arrive r)).bind fun s₁ =>
    runWhen (Sys.step (Paths.ofRoot "/r") photoCrates) (fun s a => s.Unrivalled "a" i P a) s₁ as

/-- The daemon's machine has the manifest, and the image has been painted over. -/
abbrev Repainted (files : List Char → Option Bytes) : Prop :=
  loadManifest photoCrates files "/m/nockd.toml" = .ok photoSection ∧
    files (join ((parent "/m/nockd.toml".toList).getD ['.']) "i.PNG".toList) = some [0x47, 0x49]

def photoState : Option Sys :=
  servedBy 0 (fun _ => True) (.deploy photoRequest) {} (calls 0 11)

def repaintedState (s : Sys) : Option Sys :=
  servedBy s.threads.length Repainted (.reload "a") s
    (List.replicate 10 (.run 1 { files := photoFiles [0x47, 0x49] }))

/-- The image as the daemon answers it. -/
def answered (s : Sys) : Except ApiError IconImage :=
  appIcon photoCrates visible s.world.host.registry "a"

theorem reachable_servedBy [∀ files, Decidable (P files)] {r : Request} {s₀ s : Sys}
    {as : List Action}
    (h : Reachable (Sys.step (Paths.ofRoot "/r") photoCrates) Sys.Started s₀)
    (hrun : servedBy i P r s₀ as = some s) :
    Reachable (Sys.step (Paths.ofRoot "/r") photoCrates) Sys.Started s := by
  obtain ⟨s₁, harrive, hrun⟩ := Option.bind_eq_some_iff.1 hrun
  refine ReachableWhen.trans (t := (s₁ = ·)) ?_ ?_
  · rintro _ rfl
    exact .step h trivial harrive
  · exact (ReachableWhen.runWhen (.start rfl) hrun).mono fun _ _ _ => trivial

theorem Shows.servedBy {r : Request} {start : Sys → Prop} [∀ files, Decidable (P files)]
    {image : IconImage} (h : Shows (Paths.ofRoot "/r") photoCrates visible r start P "a" image)
    {s₀ s : Sys} (hreach : Reachable (Sys.step (Paths.ofRoot "/r") photoCrates) Sys.Started s₀)
    (hstart : start s₀) {as : List Action}
    (hrun : Daemon.servedBy s₀.threads.length P r s₀ as = some s) {x : Response}
    (hdone : s.answer? s₀.threads.length = some x) : answered s = .ok image := by
  obtain ⟨s₁, harrive, hrun⟩ := Option.bind_eq_some_iff.1 hrun
  exact h s₀ s₁ s x hreach hstart harrive (ReachableWhen.runWhen (.start rfl) hrun) hdone

theorem icon_round_trip_photo :
    (∃ s s', photoState = some s ∧ answered s = .ok { contentType := "image/png", bytes := photo } ∧
      repaintedState s = some s' ∧
      answered s' = .ok { contentType := "image/png", bytes := [0x47, 0x49] }) ∧
    photoStation.posts photoCrates photoJson bitmapArgs = [] := by
  have hpath : IconPath "i.PNG" := ⟨by decide +kernel, by decide +kernel⟩
  have htrip := @icon_round_trip (Paths.ofRoot "/r") photoCrates photoJson visible
    photoCrates_base64 (by decide)
  have hdeploy : photoStation.deploy photoCrates photoJson photoArgs = .ok photoRequest := by
    decide +kernel
  have hkeeps : photoJson.Keeps photoRequest.toJson :=
    Crates.plainText_keeps List.mem_cons_self fun k hk _ => List.mem_singleton.1 hk
  have hreceived : receive photoJson (photoJson.print photoRequest.toJson) = .ok photoRequest :=
    receive_print hkeeps (by decide +kernel)
  have hbody : photoJson.print photoRequest.toJson ∈
      photoStation.posts photoCrates photoJson photoArgs := by
    unfold Workstation.posts
    rw [hdeploy]
    exact List.mem_cons_self
  have hruns : (photoState.bind fun s => (repaintedState s).map fun s' =>
      ((s.answer? 0).isSome, (s.world.host.registry.getApp "a").map (·.manifestPath),
        (s'.answer? s.threads.length).isSome)) =
      some (true, some (some "/m/nockd.toml"), true) := by
    decide +kernel
  obtain ⟨s, hs, hruns⟩ := Option.bind_eq_some_iff.1 hruns
  obtain ⟨s', hs', hruns⟩ := Option.map_eq_some_iff.1 hruns
  obtain ⟨hdone, hruns⟩ := Prod.mk.inj hruns
  obtain ⟨hrow, hdone'⟩ := Prod.mk.inj hruns
  obtain ⟨x, hx⟩ := Option.isSome_iff_exists.1 hdone
  obtain ⟨x', hx'⟩ := Option.isSome_iff_exists.1 hdone'
  have hstart : Reachable (Sys.step (Paths.ofRoot "/r") photoCrates) Sys.Started {} :=
    .start ⟨rfl, rfl, rfl, rfl, rfl, rfl⟩
  have hreach : Reachable (Sys.step (Paths.ofRoot "/r") photoCrates) Sys.Started s :=
    reachable_servedBy hstart hs
  refine ⟨⟨s, s', hs, ?_, hs', ?_⟩, ?_⟩
  · have himage : IsImage "i.PNG" "image/png" photo := ⟨by decide +kernel, by decide⟩
    exact (((htrip hpath).1 _ _ himage).2.1 photoStation photoArgs
      (photoStation.manifestConfig photoSection) (by decide +kernel) rfl (by decide +kernel) _
      hdeploy hkeeps _ hbody _ hreceived).servedBy hstart trivial hs hx
  · have himage : IsImage "i.PNG" "image/png" [0x47, 0x49] := ⟨by decide +kernel, by decide⟩
    obtain ⟨row, happ, hmanifest⟩ := Option.map_eq_some_iff.1 hrow
    exact (((htrip hpath).1 _ _ himage).2.2 "a" "/m/nockd.toml" photoSection rfl).servedBy hreach
      ⟨row, happ, hmanifest⟩ hs' hx'
  · have hbitmap : IconPath "i.bmp" := ⟨by decide +kernel, by decide +kernel⟩
    exact ((htrip hbitmap).2 photoStation bitmapArgs _ photo rfl rfl (photoFiles_only photo)
      (by decide +kernel) (Or.inr (by decide +kernel))).2

end Photo

end Daemon

end Nockd
