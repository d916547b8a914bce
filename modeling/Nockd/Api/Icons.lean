import Mathlib.Data.List.TakeDrop
import Nockd.Api.Discipline

/-!
# The icons of apps

A deploy brings a `data:` URI and a reload makes one, out of an image file or of the
inline URI in the manifest. `appIcon` decodes what is stored. Only the deploy checks
that this will work.
-/

namespace Nockd

namespace Config

/-- Base64 text is read back, and there is no white space in it. -/
structure Base64Text (crates : Crates) : Prop where
  decode : ∀ b, crates.base64Decode (crates.base64Encode b) = .ok b
  solid : ∀ b, ∀ c ∈ (crates.base64Encode b).toList, isWhiteSpace c = false

/-- The icon setting is a URI and not the path of a file. -/
def inlineIcon (icon : String) : Bool := "data:".toList.isPrefixOf (trim icon.toList)

theorem stripPrefix_append (s pat : List Char) : stripPrefix (pat ++ s) pat = some s := by
  simp [stripPrefix]

theorem stripSuffix_append (s pat : List Char) : stripSuffix (s ++ pat) pat = some s := by
  simp [stripSuffix]

theorem splitOnce_append {s : List Char} {sep : Char} (h : sep ∉ s) (t : List Char) :
    splitOnce (s ++ sep :: t) sep = some (s, t) := by
  have hs : ∀ c ∈ s, decide (c ≠ sep) = true := by
    intro c hc
    exact decide_eq_true fun heq => h (heq ▸ hc)
  unfold splitOnce
  rw [List.span_eq_takeWhile_dropWhile, List.takeWhile_append_of_pos hs,
    List.dropWhile_append_of_pos hs]
  simp

theorem trim_solid {s : List Char} (h : ∀ c ∈ s, isWhiteSpace c = false) : trim s = s := by
  have hdrop {s : List Char} (h : ∀ c ∈ s, isWhiteSpace c = false) :
      s.dropWhile isWhiteSpace = s := by
    cases s with
    | nil => rfl
    | cons c s => exact List.dropWhile_cons_of_neg (by simp [h c List.mem_cons_self])
  unfold trim
  rw [hdrop h, hdrop fun c hc => h c (List.mem_reverse.1 hc), List.reverse_reverse]

def imageTypes : List String :=
  ["image/png", "image/jpeg", "image/gif", "image/webp", "image/svg+xml", "image/x-icon"]

theorem mimeOf_mem {ext : Option (List Char)} {mime : String} (h : mimeOf ext = some mime) :
    mime ∈ imageTypes := by
  unfold mimeOf at h
  split at h
  case h_8 => cases h
  all_goals
    cases h
    decide

variable {crates : Crates}

/-- A URI that was made out of a file is decoded to its bytes. -/
theorem decodeDataUri_encode (h : Base64Text crates) {mime : String} (hmime : mime ∈ imageTypes)
    (bytes : Bytes) :
    decodeDataUri crates ("data:" ++ mime ++ ";base64," ++ crates.base64Encode bytes) =
      some (mime, bytes) := by
  have himages : ∀ mime ∈ imageTypes,
      ',' ∉ mime.toList ++ ";base64".toList ∧ mime.toList ≠ [] := by
    decide
  obtain ⟨hcomma, hne⟩ := himages mime hmime
  have hlist : ("data:" ++ mime ++ ";base64," ++ crates.base64Encode bytes).toList =
      "data:".toList ++ ((mime.toList ++ ";base64".toList) ++
        ',' :: (crates.base64Encode bytes).toList) := by
    simp
  unfold decodeDataUri
  rw [hlist, stripPrefix_append, Option.bind_eq_bind, Option.bind_some, splitOnce_append hcomma,
    Option.bind_eq_bind, Option.bind_some]
  simp only [stripSuffix_append, trim_solid (h.solid bytes), String.ofList_toList, h.decode]
  simp [hne, Except.toOption]

/-- The URI that an inline setting stands for. -/
def inlineUri (icon : String) : Option String :=
  if inlineIcon icon then some (String.ofList (trim icon.toList)) else none

/-- The decoded media type can be sent; `header` are the texts that are header values. -/
def Typed (crates : Crates) (header : String → Bool) (uri : String) : Prop :=
  ∀ mime bytes, decodeDataUri crates uri = some (mime, bytes) → header mime = true

/-- The URI passes `validate_icon`, and its media type can be sent. -/
structure Servable (crates : Crates) (header : String → Bool) (uri : String) : Prop where
  valid : validateIcon crates uri = .ok ()
  typed : Typed crates header uri

variable {header : String → Bool} {files : List Char → Option Bytes} {dir : List Char}

theorem validateIcon_ok_iff {uri : String} :
    validateIcon crates uri = .ok () ↔
      ∃ mime bytes, decodeDataUri crates uri = some (mime, bytes) ∧
        bytes.length ≤ maxIconBytes := by
  unfold validateIcon
  cases hdecode : decodeDataUri crates uri with
  | none => simp
  | some x =>
      obtain ⟨mime, bytes⟩ := x
      by_cases hsize : maxIconBytes < bytes.length
      · simp [hsize, hsize.not_ge]
      · simp [hsize, Nat.le_of_not_lt hsize]

/-- A file becomes an icon that can be served, an inline URI becomes itself. -/
theorem resolveIcon_servable (h : Base64Text crates)
    (hheader : ∀ mime ∈ imageTypes, header mime = true) {icon uri : String}
    (hresolve : resolveIcon crates files dir icon = .ok uri)
    (hinline : ∀ u ∈ inlineUri icon, Servable crates header u) :
    Servable crates header uri := by
  by_cases hdata : inlineIcon icon = true
  · have huri : inlineUri icon = some uri := by
      unfold resolveIcon at hresolve
      unfold inlineUri
      rw [if_pos hdata]
      unfold inlineIcon at hdata
      simp only [hdata, if_true, Except.ok.injEq] at hresolve
      rw [hresolve]
    exact hinline uri huri
  · unfold inlineIcon at hdata
    simp only [resolveIcon, hdata, Bool.false_eq_true, if_false] at hresolve
    cases hread : files (join dir (trim icon.toList)) with
    | none => simp [hread] at hresolve
    | some bytes =>
        simp only [hread] at hresolve
        split at hresolve
        case isTrue => cases hresolve
        case isFalse hsize =>
          split at hresolve
          case h_1 => cases hresolve
          case h_2 mime hmime =>
            have hdecode := decodeDataUri_encode h (mimeOf_mem hmime) bytes
            rw [Except.ok.inj hresolve] at hdecode
            refine ⟨validateIcon_ok_iff.2 ⟨_, _, hdecode, Nat.le_of_not_lt hsize⟩, ?_⟩
            intro mime' bytes' hdecode'
            rw [hdecode] at hdecode'
            cases hdecode'
            exact hheader mime (mimeOf_mem hmime)

end Config

namespace Registry

/-- All stored icons meet `P`. -/
def IconsAre (P : String → Prop) (r : Registry) : Prop :=
  ∀ name row, r.app.lookup name = some row → ∀ uri ∈ row.icon, P uri

/-- The icon that a statement stores. -/
def Statement.icon : Statement → Option String
  | .upsertApp u => u.icon
  | .updateAppConfig _ c => c.icon
  | _ => none

variable {P : String → Prop} {r : Registry}

theorem IconsAre.modify (h : r.IconsAre P) (app : String) {f : AppRecord → AppRecord}
    (hf : ∀ row, (∀ uri ∈ row.icon, P uri) → ∀ uri ∈ (f row).icon, P uri) :
    IconsAre P { r with app := Table.modify r.app app f } := by
  intro name row hrow
  change (Table.modify r.app app f).lookup name = some row at hrow
  by_cases hname : name = app
  · subst hname
    rw [Table.lookup_modify, Option.map_eq_some_iff] at hrow
    obtain ⟨old, hold, rfl⟩ := hrow
    exact hf old (h name old hold)
  · rw [Table.lookup_modify_ne _ _ hname] at hrow
    exact h name row hrow

theorem IconsAre.exec (h : r.IconsAre P) {st : Statement} (hst : ∀ uri ∈ st.icon, P uri)
    (now : ℤ) : (st.exec now r).IconsAre P := by
  cases st with
  | upsertApp u =>
      intro name row hrow
      by_cases hname : name = u.name
      · subst hname
        have hself : (Registry.upsertApp r now u).app.lookup u.name = some _ :=
          AList.lookup_insert _
        rw [Statement.exec, hself] at hrow
        cases hrow
        exact hst
      · refine h name row ?_
        rw [← hrow]
        exact (AList.lookup_insert_ne hname).symm
  | updateAppConfig app c => exact h.modify app fun _ _ => hst
  | setAppArtifact app hash => exact h.modify app fun _ hrow => hrow
  | setDesired app status => exact h.modify app fun _ hrow => hrow
  | addTrustedBuilder pubkey =>
      simp only [Statement.exec, addTrustedBuilder]
      split <;> exact h
  | _ => exact h

theorem IconsAre.of_quiet (h : r.IconsAre P) {r' : Registry} (hquiet : r'.quiet = r.quiet) :
    r'.IconsAre P := by
  have happ : r'.app = r.app := congr_of_quiet (·.app) (fun _ => rfl) hquiet
  unfold IconsAre
  rw [happ]
  exact h

end Registry

namespace Api

open Config Interleaving Registry Store Supervisor

variable {crates : Crates} {header : String → Bool}

/-- The response of `app_icon`. -/
structure IconImage where
  contentType : String
  cacheControl : String := "public, max-age=300"
  bytes : Bytes
deriving DecidableEq, Repr

variable (crates header) in
/-- Decode the stored icon; a media type that is no header value is a server error. -/
def appIcon (r : Registry) (name : String) : Except ApiError IconImage :=
  match r.getApp name with
  | none => .error (.notFound name)
  | some app =>
    match app.icon with
    | none => .error (.notFound (name ++ " (no icon)"))
    | some uri =>
      match decodeDataUri crates uri with
      | none => .error (.badRequest "stored icon is not a base64 data: URI")
      | some (mime, bytes) =>
        if header mime then .ok { contentType := mime, bytes }
        else .error (.internal "failed to parse header value")

/-- What the app list reports. -/
def hasIcon (app : AppRow) : Bool := app.icon.isSome

theorem icon_listed {P : String → Prop} {r : Registry} (h : r.IconsAre P) {app : AppRow}
    (happ : app ∈ r.listApps) : ∀ uri ∈ app.icon, P uri := by
  obtain ⟨row, hrow, hjoin⟩ := Option.map_eq_some_iff.1 (mem_listApps.1 happ)
  rw [← hjoin]
  exact h _ row hrow

theorem appIcon_served {r : Registry} (h : r.IconsAre (Servable crates header)) {app : AppRow}
    (happ : app ∈ r.listApps) (hicon : hasIcon app = true) :
    ∃ image, appIcon crates header r app.name = .ok image ∧
      image.bytes.length ≤ maxIconBytes := by
  obtain ⟨uri, huri⟩ := Option.isSome_iff_exists.1 hicon
  obtain ⟨hvalid, htyped⟩ := icon_listed h happ uri huri
  obtain ⟨mime, bytes, hdecode, hsize⟩ := validateIcon_ok_iff.1 hvalid
  refine ⟨{ contentType := mime, bytes }, ?_, hsize⟩
  unfold appIcon
  simp only [mem_listApps.1 happ, huri, hdecode, htyped mime bytes hdecode, if_true]

/-! ## What the handlers store -/

def Call.icon : Call → Option String
  | .write st => st.icon
  | _ => none

/-- The program stores only icons that meet `P`. -/
abbrev Brings {α : Type} (P : String → Prop) (p : Proc α) : Prop :=
  p.Only fun op => ∀ uri ∈ op.icon, P uri

variable {paths : Paths} {P : String → Prop} {α : Type}

theorem brings_must {c : Call} {f : c.Reply → Proc α} (hc : ∀ uri ∈ c.icon, P uri)
    (h : ∀ r, Brings P (f r)) : Brings P (must c >>= f) :=
  ⟨hc, h, fun _ => trivial⟩

theorem icon_of_uses {op : Call} (h : Fact.changing ∉ op.uses) : op.icon = none := by
  cases op with
  | write st => cases st <;> first | rfl | exact absurd (by simp [Call.uses]) h
  | _ => rfl

theorem brings_of_unchanging {p : Proc α} {known : Set Fact} (h : Obeys known p)
    (hknown : Fact.changing ∉ known) : Brings P p := by
  refine (never_uses h hknown (by simp) (by simp)).mono fun op hop => ?_
  rw [icon_of_uses hop]
  exact nofun

theorem brings_tail {r : Response} : Brings P (reconcile >>= fun _ => pure r) :=
  @brings_of_unchanging _ _ _ ∅ obeys_tail (Set.notMem_empty _)

/-- A deploy stores an icon that passes `validate_icon`. -/
theorem brings_deploy {req : DeployRequest}
    (hicon : ∀ uri ∈ req.icon, validateIcon crates uri = .ok () → P uri) :
    Brings P (deploy paths crates req) := by
  unfold deploy
  cases decodeBundle crates req with
  | error e => trivial
  | ok bundle =>
      refine brings_must nofun fun record => brings_must nofun fun _ => ?_
      refine brings_must nofun fun isTrusted => brings_must nofun fun _ => ?_
      unfold deployApp
      cases hcheck : checkIcon crates req.icon with
      | error m => trivial
      | ok _ =>
          refine brings_must (fun uri huri => ?_) fun _ => ?_
          · change req.icon = some uri at huri
            refine hicon uri huri ?_
            rwa [huri] at hcheck
          refine brings_must nofun fun _ => brings_must nofun fun _ => ?_
          exact brings_must nofun fun _ => brings_tail

theorem brings_rollback (name : String) : Brings P (rollback name) := by
  unfold rollback appOr404
  refine Program.Only.bind (brings_must nofun fun app => by cases app <;> trivial) fun app => ?_
  refine brings_must nofun fun prev => ?_
  cases prev with
  | none => trivial
  | some prev =>
      refine brings_must nofun fun _ => brings_must nofun fun _ => brings_must nofun fun _ => ?_
      exact brings_must nofun fun _ => brings_must nofun fun _ => brings_tail

variable (crates) in
/-- What is left of a reload once it has found the path of the manifest. -/
def reloadFrom (name manifestPath : String) : Thread := do
  match loadManifest crates (← must .files) manifestPath with
  | .error e => .throw (.badRequest ("could not read manifest " ++ manifestPath ++ ": " ++
      e ++ " (is it still on this machine?)"))
  | .ok manifest => do
    match manifestIcon crates (← must .files) manifestPath manifest.icon with
    | .error e => .throw (.badRequest ("could not resolve icon: " ++ e))
    | .ok icon => do
      must (.write (.updateAppConfig name (configOf manifest icon)))
      must (.write (.setDesired name "running"))
      must (.requestRestart name)
      must (.write (.addEvent name "reload" "manifest re-read; config re-applied"))
      reconcile
      pure .ok

theorem reload_eq (name : String) : ∃ e, reload crates name = (appOr404 name >>= fun app =>
    match app.manifestPath with
    | none => .throw e
    | some path => reloadFrom crates name path) :=
  ⟨_, rfl⟩

/-- The inline icon of the manifest that is read can be served. -/
def InlineServable (crates : Crates) (header : String → Bool) (files : List Char → Option Bytes)
    (manifestPath : String) : Prop :=
  ∀ manifest, loadManifest crates files manifestPath = .ok manifest →
    ∀ icon ∈ manifest.icon, ∀ uri ∈ inlineUri icon, Servable crates header uri

theorem manifestIcon_servable (h : Base64Text crates)
    (hheader : ∀ mime ∈ imageTypes, header mime = true) {files : List Char → Option Bytes}
    {path : String} {icon uri? : Option String}
    (hicon : manifestIcon crates files path icon = .ok uri?)
    (hinline : ∀ i ∈ icon, ∀ uri ∈ inlineUri i, Servable crates header uri) :
    ∀ uri ∈ uri?, Servable crates header uri := by
  cases icon with
  | none =>
      cases hicon
      exact nofun
  | some i =>
      cases hresolve : resolveIcon crates files ((parent path.toList).getD ['.']) i with
      | error e => simp [manifestIcon, hresolve, Except.map] at hicon
      | ok resolved =>
          simp only [manifestIcon, hresolve, Except.map, Except.ok.injEq] at hicon
          rintro uri huri
          rw [← hicon, Option.mem_some] at huri
          exact huri ▸ resolveIcon_servable h hheader hresolve (hinline i rfl)

/-- A reload that has read such a manifest stores an icon that can be served. -/
theorem brings_reloadFrom (h : Base64Text crates)
    (hheader : ∀ mime ∈ imageTypes, header mime = true) {name path : String}
    {files : List Char → Option Bytes} {next : Except String (Call.files).Reply → Thread}
    (heq : reloadFrom crates name path = .call .files next)
    (hinline : InlineServable crates header files path) :
    Brings (Servable crates header) (next (.ok files)) := by
  unfold reloadFrom at heq
  cases heq
  change Brings (Servable crates header) (match loadManifest crates files path with
    | .error e => _
    | .ok manifest => _)
  cases hload : loadManifest crates files path with
  | error e => trivial
  | ok manifest =>
      refine brings_must nofun fun files' => ?_
      cases hicon : manifestIcon crates files' path manifest.icon with
      | error e => trivial
      | ok icon =>
          have hservable := manifestIcon_servable h hheader hicon (hinline manifest hload)
          refine brings_must hservable fun _ => brings_must nofun fun _ => ?_
          exact brings_must nofun fun _ => brings_must nofun fun _ => brings_tail

end Api

end Nockd
