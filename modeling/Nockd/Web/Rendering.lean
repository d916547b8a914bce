import Nockd.Data.Markup
import Nockd.Data.Substitution
import Nockd.Web.AnsiToHtml

/-!
# What the log panel renders

Whatever a log line holds, its HTML has tags of a fixed few kinds, which are balanced, and its
text is the line without its SGR sequences.
-/

namespace Nockd

namespace Web

open Markup Substitution

/-! ## What may come out -/

def palette : List JsString := ansiFg.map Prod.snd

/-- The declarations a style may have. -/
def declarations : List JsString :=
  (palette.map fun c => js "color:" ++ c) ++ [js "font-weight:700", js "opacity:.65"]

/-- A tag, without its brackets. -/
inductive AllowedTag : JsString → Prop where
  | close : AllowedTag (js "/span")
  | plain : AllowedTag (js "span")
  | style {ds : List JsString} : ds ≠ [] → (∀ d ∈ ds, d ∈ declarations) →
      AllowedTag (js "span style=\"" ++ (js ";").intercalate ds ++ js "\"")
  | verb {v : JsString} : v ∈ verbs → AllowedTag (js "span class=\"v-" ++ v ++ js "\"")

def closesSpan (tag : JsString) : Prop := tag = js "/span"

/-- The four entities, and what they stand for. -/
def entityRules : Set (Rule UInt16) := {rule | ∃ c, (c, rule.1) ∈ escapes ∧ rule.2 = [c]}

/-- `ESC [`, digits and semicolons, and `m`. -/
def IsSgr (seq : JsString) : Prop :=
  ∃ params, (∀ c ∈ params, isParameter c = true) ∧
    seq = escUnit :: bracketUnit :: (params ++ [mUnit])

def sgrRules : Set (Rule UInt16) := {rule | IsSgr rule.1 ∧ rule.2 = []}

/-- The HTML has allowed tags only, they are balanced, and this text is left without them. -/
def Rendered (html text : JsString) : Prop :=
  ∃ tags, Reads ltUnit gtUnit html tags text ∧ (∀ tag ∈ tags, AllowedTag tag) ∧
    Balanced closesSpan tags

/-- The colour is one of the palette. -/
def Style.Safe (cur : Style) : Prop := ∀ c ∈ cur.color, c ∈ palette

variable {html html' text text' s t params rest before v p : JsString} {cur : Style} {c : UInt16}

theorem Rendered.append (h : Rendered html text) (h' : Rendered html' text') :
    Rendered (html ++ html') (text ++ text') := by
  obtain ⟨tags, hreads, hallowed, hbalanced⟩ := h
  obtain ⟨tags', hreads', hallowed', hbalanced'⟩ := h'
  refine ⟨tags ++ tags', hreads.append hreads', fun tag htag => ?_, hbalanced.append hbalanced'⟩
  exact (List.mem_append.1 htag).elim (hallowed tag) (hallowed' tag)

theorem Rendered.of_plain (h : ∀ c ∈ t, c ≠ ltUnit ∧ c ≠ gtUnit) : Rendered t t :=
  ⟨[], .of_plain h, nofun, .nil⟩

/-- A span around what is rendered. -/
theorem Rendered.span {body : JsString} (h : Rendered html text) (hallowed : AllowedTag body)
    (hopen : ¬ closesSpan body) (hbody : gtUnit ∉ body) :
    Rendered (ltUnit :: (body ++ [gtUnit]) ++ html ++ js "</span>") text := by
  obtain ⟨tags, hreads, htags, hbalanced⟩ := h
  have hclose : Reads ltUnit gtUnit (js "</span>") [js "/span"] [] :=
    @Reads.singleton _ ltUnit gtUnit (js "/span") (by decide)
  refine ⟨body :: (tags ++ [js "/span"]), ?_, fun tag htag => ?_, .around hopen rfl hbalanced⟩
  · have hall := ((@Reads.singleton _ ltUnit _ _ hbody).append hreads).append hclose
    rwa [List.append_nil] at hall
  · rcases List.mem_cons.1 htag with rfl | htag
    · exact hallowed
    · rcases List.mem_append.1 htag with htag | htag
      · exact htags tag htag
      · exact List.mem_singleton.1 htag ▸ .close

theorem not_closesSpan {tag : JsString} (h : tag.head? = some 0x73) : ¬ closesSpan tag := by
  rintro rfl
  exact absurd h (by decide)

/-- No bracket is in the text. -/
def isPlain (s : JsString) : Bool := s.all fun c => c ≠ ltUnit ∧ c ≠ gtUnit

theorem isPlain_iff : isPlain s = true ↔ ∀ c ∈ s, c ≠ ltUnit ∧ c ≠ gtUnit := by
  simp [isPlain]

/-! ## Escaping -/

theorem esc_cons_of_mem {entity : JsString} (h : (c, entity) ∈ escapes) (s : JsString) :
    esc (c :: s) = entity ++ esc s := by
  have hlookup : escapes.lookup c = some entity := by
    have hall : ∀ e ∈ escapes, escapes.lookup e.1 = some e.2 := by decide
    exact hall _ h
  rw [esc, List.flatMap_cons, hlookup]
  rfl

theorem esc_cons_of_not_mem (h : c ∉ escapes.map Prod.fst) (s : JsString) :
    esc (c :: s) = c :: esc s := by
  have hlookup : escapes.lookup c = none := by
    rw [List.lookup_eq_none_iff]
    intro e he
    simp only [bne_iff_ne]
    exact fun heq => h (List.mem_map.2 ⟨e, he, heq.symm⟩)
  rw [esc, List.flatMap_cons, hlookup]
  rfl

theorem esc_append (s t : JsString) : esc (s ++ t) = esc s ++ esc t := List.flatMap_append

theorem esc_plain (s : JsString) : ∀ c ∈ esc s, c ≠ ltUnit ∧ c ≠ gtUnit := by
  have hentities : ∀ e ∈ escapes, isPlain e.2 = true := by decide
  have hkeys : ltUnit ∈ escapes.map Prod.fst ∧ gtUnit ∈ escapes.map Prod.fst := by decide
  induction s with
  | nil => nofun
  | cons c s ih =>
      intro d hd
      by_cases hc : c ∈ escapes.map Prod.fst
      · obtain ⟨⟨_, entity⟩, he, rfl⟩ := List.mem_map.1 hc
        rw [esc_cons_of_mem he] at hd
        exact (List.mem_append.1 hd).elim (isPlain_iff.1 (hentities _ he) d) (ih d)
      · rw [esc_cons_of_not_mem hc] at hd
        rcases List.mem_cons.1 hd with rfl | hd
        · exact ⟨fun heq => hc (heq ▸ hkeys.1), fun heq => hc (heq ▸ hkeys.2)⟩
        · exact ih d hd

theorem marked_entity {e : UInt16 × JsString} (he : e ∈ escapes) : Marked 0x26 e.2 := by
  have hall : ∀ e ∈ escapes, e.2 = 0x26 :: e.2.tail ∧ 0x26 ∉ e.2.tail := by decide
  exact ⟨e.2.tail, (hall e he).1, (hall e he).2⟩

/-- Undoing the escapes gives the text back. -/
theorem filled_esc (s : JsString) : Filled entityRules (esc s) s := by
  induction s with
  | nil => exact .nil
  | cons c s ih =>
      by_cases hc : c ∈ escapes.map Prod.fst
      · obtain ⟨⟨_, entity⟩, he, rfl⟩ := List.mem_map.1 hc
        rw [esc_cons_of_mem he]
        exact .put (show (_, [_]) ∈ entityRules from ⟨_, he, rfl⟩) ih
      · rw [esc_cons_of_not_mem hc]
        refine .keep (fun rule ⟨d, hd, _⟩ => (marked_entity hd).not_start ?_) ih
        rintro rfl
        exact hc (by decide)

/-- The escapes are undone in one way only. -/
theorem filled_entities_unique (h : Filled entityRules s t) (h' : Filled entityRules s text) :
    t = text := by
  have hfree : ∀ e ∈ escapes, ∀ e' ∈ escapes, e.2 <+: e'.2 → e = e' := by decide
  refine h.unique ?_ ?_ h'
  · rintro ⟨_, _⟩ ⟨c, hc, rfl⟩ ⟨_, _⟩ ⟨d, hd, rfl⟩ hpre
    cases hfree _ hc _ hd hpre
    rfl
  · rintro ⟨_, _⟩ ⟨c, hc, -⟩
    exact (marked_entity hc).ne_nil

/-! ## Verbs -/

theorem verb_cases (hv : v ∈ verbs) : v ≠ [] ∧ (∀ c ∈ v, c ≠ ltUnit ∧ c ≠ gtUnit) := by
  have hall : ∀ v ∈ verbs, v ≠ [] ∧ isPlain v = true := by decide
  exact ⟨(hall v hv).1, isPlain_iff.1 (hall v hv).2⟩

theorem verbAt_eq_some {before : Option UInt16} (h : verbAt before s = some v) :
    v ∈ verbs ∧ v <+: s := by
  unfold verbAt at h
  split at h
  · have hfound := List.find?_some h
    rw [Bool.and_eq_true] at hfound
    exact ⟨List.mem_of_find?_eq_some h, List.isPrefixOf_iff_prefix.1 hfound.1⟩
  · cases h

theorem rendered_highlight (hv : v ∈ verbs) : Rendered (highlight v) v := by
  have hplain := (verb_cases hv).2
  have hbody : gtUnit ∉ js "span class=\"v-" ++ v ++ js "\"" := by
    intro hmem
    rcases List.mem_append.1 hmem with hmem | hmem
    · rcases List.mem_append.1 hmem with hmem | hmem
      · exact absurd hmem (by decide)
      · exact (hplain _ hmem).2 rfl
    · exact absurd hmem (by decide)
  have hspan := (Rendered.of_plain hplain).span (.verb hv) (not_closesSpan rfl) hbody
  have htag : highlight v = ltUnit :: (js "span class=\"v-" ++ v ++ js "\"" ++ [gtUnit]) ++ v ++
      js "</span>" := by
    have hstart : js "<span class=\"v-" = ltUnit :: js "span class=\"v-" := by decide
    have hend : js "\">" = js "\"" ++ [gtUnit] := by decide
    rw [highlight, hstart, hend]
    simp only [List.cons_append, List.append_assoc]
  rwa [htag]

/-- Highlighting adds tags only. -/
theorem rendered_colorVerbsFrom (h : ∀ c ∈ s, c ≠ ltUnit ∧ c ≠ gtUnit) (n : ℕ)
    (before : Option UInt16) : Rendered (colorVerbsFrom n before s) (s.drop n) := by
  induction s generalizing n before with
  | nil =>
      rw [List.drop_nil]
      cases n <;> exact .of_plain nofun
  | cons c s ih =>
      have hs : ∀ d ∈ s, d ≠ ltUnit ∧ d ≠ gtUnit := fun d hd => h d (List.mem_cons_of_mem c hd)
      cases n with
      | succ n => exact ih hs n (some c)
      | zero =>
          rw [colorVerbsFrom]
          cases hverb : verbAt before (c :: s) with
          | none =>
              have hc := Rendered.of_plain (t := [c]) fun d hd => h d (by simp_all)
              exact hc.append (ih hs 0 (some c))
          | some v =>
              obtain ⟨hv, rest, hrest⟩ := verbAt_eq_some hverb
              have hskip : s.drop (v.length - 1) = rest := by
                cases v with
                | nil => exact absurd rfl (verb_cases hv).1
                | cons b v =>
                    obtain ⟨-, rfl⟩ := List.cons.inj hrest
                    exact List.drop_left
              rw [List.drop_zero, ← hrest, ← hskip]
              exact (rendered_highlight hv).append (ih hs _ _)

/-! ## Styles -/

theorem mem_intercalate {sep : JsString} {ds : List JsString} (h : c ∈ sep.intercalate ds) :
    c ∈ sep ∨ ∃ d ∈ ds, c ∈ d := by
  induction ds with
  | nil => cases h
  | cons d ds ih =>
      by_cases hds : ds = []
      · subst hds
        exact Or.inr ⟨d, List.mem_singleton_self d, by simpa using h⟩
      · rw [List.intercalate_cons_of_ne_nil hds] at h
        rcases List.mem_append.1 h with h | h
        · rcases List.mem_append.1 h with h | h
          · exact Or.inr ⟨d, List.mem_cons_self, h⟩
          · exact Or.inl h
        · exact (ih h).imp_right fun ⟨e, he, hc⟩ => ⟨e, List.mem_cons_of_mem d he, hc⟩

theorem Style.Safe.apply (h : cur.Safe) (code : ℕ) : (cur.apply code).Safe := by
  unfold Style.apply
  split
  · nofun
  · split
    · exact h
    · split
      · exact h
      · split
        · exact h
        · split
          · nofun
          · split
            case h_1 color hcolor =>
              rintro _ ⟨⟩
              obtain ⟨l₁, l₂, heq, -⟩ := List.lookup_eq_some_iff.1 hcolor
              exact List.mem_map_of_mem (heq ▸ by simp : (code, color) ∈ ansiFg)
            case h_2 => exact h

theorem Style.Safe.foldl (h : cur.Safe) (cs : List ℕ) : (cs.foldl Style.apply cur).Safe := by
  induction cs generalizing cur with
  | nil => exact h
  | cons code cs ih => exact ih (h.apply code)

theorem Style.Safe.declarations (h : cur.Safe) : ∀ d ∈ cur.declarations, d ∈ Web.declarations := by
  intro d hd
  unfold Style.declarations at hd
  simp only [List.mem_append, Option.mem_toList, Option.map_eq_some_iff] at hd
  rcases hd with (⟨color, hcolor, rfl⟩ | hd) | hd
  · exact List.mem_append_left _ (List.mem_map_of_mem (h color hcolor))
  · split at hd
    · exact List.mem_append_right _ (by simp_all)
    · cases hd
  · split at hd
    · exact List.mem_append_right _ (by simp_all)
    · cases hd

theorem rendered_styled (h : Rendered html text) (hsafe : cur.Safe) :
    Rendered (cur.openTag ++ html ++ js "</span>") text := by
  unfold Style.openTag
  split
  · have hplain : gtUnit ∉ js "span" := by decide
    exact h.span .plain (not_closesSpan rfl) hplain
  case isFalse hne =>
    have hdeclared := hsafe.declarations
    have hbody :
        gtUnit ∉ js "span style=\"" ++ (js ";").intercalate cur.declarations ++ js "\"" := by
      have hall : ∀ d ∈ declarations, gtUnit ∉ d := by decide
      intro hmem
      rcases List.mem_append.1 hmem with hmem | hmem
      · rcases List.mem_append.1 hmem with hmem | hmem
        · exact absurd hmem (by decide)
        · rcases mem_intercalate hmem with hmem | ⟨d, hd, hmem⟩
          · exact absurd hmem (by decide)
          · exact hall d (hdeclared d hd) hmem
      · exact absurd hmem (by decide)
    have hspan := h.span (.style hne hdeclared) (not_closesSpan rfl) hbody
    have hstart : js "<span style=\"" = ltUnit :: js "span style=\"" := by decide
    have hend : js "\">" = js "\"" ++ [gtUnit] := by decide
    rw [hstart, hend]
    simpa only [List.cons_append, List.append_assoc] using hspan

/-- Each piece of text is put behind what is there, in a span of its own. -/
theorem rendered_emit (h : Rendered html (esc p)) (hsafe : cur.Safe) (t : JsString) :
    Rendered (emit html cur t) (esc (p ++ t)) := by
  unfold emit
  split
  case isTrue hnil => rwa [hnil, List.append_nil]
  case isFalse =>
    rw [esc_append]
    exact h.append (rendered_styled (rendered_colorVerbsFrom (esc_plain t) 0 none) hsafe)

/-! ## Sequences -/

theorem sgrAt_sequence (h : ∀ c ∈ params, isParameter c = true) (rest : JsString) :
    sgrAt (escUnit :: bracketUnit :: (params ++ mUnit :: rest)) = some (params, rest) := by
  have hm : isParameter mUnit = false := by decide
  unfold sgrAt
  dsimp only
  rw [if_pos ⟨rfl, rfl⟩, List.span_eq_takeWhile_dropWhile, List.takeWhile_append_of_pos h,
    List.dropWhile_append_of_pos h]
  simp [hm]

theorem sgrAt_eq_some (h : sgrAt s = some (params, rest)) :
    (∀ c ∈ params, isParameter c = true) ∧
      s = escUnit :: bracketUnit :: (params ++ mUnit :: rest) := by
  unfold sgrAt at h
  split at h
  case h_1 c d s =>
    split at h
    case isTrue hstart =>
      obtain ⟨rfl, rfl⟩ := hstart
      rw [List.span_eq_takeWhile_dropWhile] at h
      split at h
      case h_1 params' e rest' hspan =>
        obtain ⟨rfl, hdrop⟩ := Prod.mk.inj hspan
        split at h
        case isTrue hm =>
          cases h
          refine ⟨fun c hc => (List.all_eq_true.1 List.all_takeWhile) c hc, ?_⟩
          rw [← hm, ← hdrop, List.takeWhile_append_dropWhile]
        case isFalse => cases h
      case h_2 => cases h
    case isFalse => cases h
  case h_2 => cases h

theorem sgrAt_eq_none (h : sgrAt s = none) : ∀ rule ∈ sgrRules, ¬ rule.1 <+: s := by
  rintro ⟨_, _⟩ ⟨⟨params, hparams, rfl⟩, -⟩ ⟨rest, rfl⟩
  have hsome := sgrAt_sequence hparams rest
  rw [List.cons_append, List.cons_append, List.append_assoc, List.singleton_append, hsome] at h
  cases h

/-- The sequences are removed in one way only. -/
theorem filled_sgr_unique (h : Filled sgrRules s t) (h' : Filled sgrRules s text) : t = text := by
  refine h.unique ?_ ?_ h'
  · rintro ⟨_, _⟩ ⟨⟨params, hparams, rfl⟩, rfl⟩ ⟨_, _⟩ ⟨⟨params', hparams', rfl⟩, rfl⟩ ⟨rest, heq⟩
    have hleft := sgrAt_sequence hparams rest
    have hright := sgrAt_sequence hparams' []
    simp only [List.cons_append, List.append_assoc, List.nil_append] at heq
    rw [heq, hright] at hleft
    cases hleft
    rfl
  · rintro ⟨_, _⟩ ⟨⟨params, -, rfl⟩, -⟩
    exact List.cons_ne_nil _ _

/-- The next match is the leftmost sequence. -/
theorem exec_eq_some (h : exec s = some (before, params, rest)) : rest.length < s.length ∧
    ∀ r, Filled sgrRules rest r → Filled sgrRules s (before ++ r) := by
  induction s generalizing before with
  | nil => cases h
  | cons c s ih =>
      unfold exec at h
      split at h
      case h_1 params' rest' hsgr =>
        cases h
        obtain ⟨hparams, heq⟩ := sgrAt_eq_some hsgr
        have happend : c :: s = (escUnit :: bracketUnit :: (params ++ [mUnit])) ++ rest := by
          simp [heq]
        refine ⟨?_, fun r hr => ?_⟩
        · rw [happend, List.length_append]
          exact Nat.lt_add_of_pos_left (Nat.succ_pos _)
        · rw [happend]
          exact .put ⟨⟨params, hparams, rfl⟩, rfl⟩ hr
      case h_2 hsgr =>
        obtain ⟨⟨before', params', rest'⟩, hexec, heq⟩ := Option.map_eq_some_iff.1 h
        cases heq
        obtain ⟨hlen, hfilled⟩ := ih hexec
        exact ⟨hlen.trans (Nat.lt_succ_self _),
          fun r hr => .keep (sgrAt_eq_none hsgr) (hfilled r hr)⟩

theorem exec_eq_none (h : exec s = none) : Filled sgrRules s s := by
  induction s with
  | nil => exact .nil
  | cons c s ih =>
      unfold exec at h
      split at h
      case h_1 => cases h
      case h_2 hsgr => exact .keep (sgrAt_eq_none hsgr) (ih (Option.map_eq_none_iff.1 h))

/-! ## The loop -/

/-- The loop ends, since each turn leaves less of the line. -/
theorem scan_rendered {s : Scan} (h : Rendered s.html (esc p)) (hsafe : s.cur.Safe) {fuel : ℕ}
    (hfuel : s.rest.length < fuel) : ∃ html r, scan fuel s = some html ∧
      Rendered html (esc (p ++ r)) ∧ Filled sgrRules s.rest r := by
  induction fuel generalizing s p with
  | zero => exact absurd hfuel (Nat.not_lt_zero _)
  | succ fuel ih =>
      unfold scan Scan.next
      cases hexec : exec s.rest with
      | none => exact ⟨_, s.rest, rfl, rendered_emit h hsafe s.rest, exec_eq_none hexec⟩
      | some m =>
          obtain ⟨before, params, rest⟩ := m
          obtain ⟨hlen, hfilled⟩ := exec_eq_some hexec
          obtain ⟨html, r, hscan, hrendered, hr⟩ :=
            ih (s := { rest, cur := _, html := _ }) (rendered_emit h hsafe before)
              (hsafe.foldl (codes params)) (by dsimp only; omega)
          rw [List.append_assoc] at hrendered
          exact ⟨html, before ++ r, hscan, hrendered, hfilled r hr⟩

theorem scan_mono {fuel fuel' : ℕ} (hle : fuel ≤ fuel') {s : Scan} (h : scan fuel s = some html) :
    scan fuel' s = some html := by
  induction fuel generalizing s fuel' with
  | zero => cases h
  | succ fuel ih =>
      obtain ⟨k, rfl⟩ := Nat.exists_eq_add_of_le' (Nat.zero_lt_of_lt hle)
      unfold scan at h ⊢
      cases hnext : s.next with
      | none => rwa [hnext] at h
      | some s' =>
          rw [hnext] at h
          exact ih (Nat.le_of_succ_le_succ hle) h

/-- `ansiToHtml` returns, and whatever the line holds, the tags of the result are allowed and
balanced. What deleting them leaves, and undoing the entities of that, is the line without its
SGR sequences. -/
theorem ansiToHtml_safe (line : JsString) : ∃ html tags text plain,
    (∀ fuel, line.length < fuel → ansiToHtml fuel line = some html) ∧
      (∀ tags' text', Reads ltUnit gtUnit html tags' text' ↔ tags' = tags ∧ text' = text) ∧
      (∀ tag ∈ tags, AllowedTag tag) ∧ Balanced closesSpan tags ∧
      (∀ t, Filled entityRules text t ↔ t = plain) ∧ ∀ t, Filled sgrRules line t ↔ t = plain := by
  obtain ⟨html, plain, hscan, ⟨tags, hreads, hallowed, hbalanced⟩, hplain⟩ :=
    scan_rendered (p := []) (s := { rest := line }) (.of_plain nofun) nofun
      (Nat.lt_succ_self line.length)
  refine ⟨html, tags, esc plain, plain, fun fuel hfuel => scan_mono hfuel hscan, ?_, hallowed,
    hbalanced, ?_, ?_⟩
  · refine fun tags' text' => ⟨fun h => h.unique hreads, ?_⟩
    rintro ⟨rfl, rfl⟩
    exact hreads
  · exact fun t => ⟨fun h => filled_entities_unique h (filled_esc plain),
      fun heq => heq ▸ filled_esc plain⟩
  · exact fun t => ⟨fun h => filled_sgr_unique h hplain, fun heq => heq ▸ hplain⟩

end Web

end Nockd
