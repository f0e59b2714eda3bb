import Mathlib.Data.List.Find
import TfAnalytics.Lib.Delimited
import TfAnalytics.Collector.SyslogGrammar

/-!
# Collector — the links of a host

`HostnameRecordsHandler` (structured_syslog_config.cc) packs the four texts of a link into one,
with `@` between them; `StructuredSyslogDecorate` (structured_syslog_server.cc) takes it apart
at runs of `@` when a field of a message names the link's overlay.

* `decorateLinks_spec`: the decorations of a message;
* `links_survive_iff`: when the four texts come through.
-/

namespace TfAnalytics.Collector

open TfAnalytics.Lib

/-- A link of `structured_syslog_linkmap`. -/
structure OverlayLink where
  overlay : Bytes
  underlay : Bytes
  link_type : Bytes
  traffic_destination : Bytes
  link_metadata : Bytes
  deriving DecidableEq

/-- A text as `GetString` hands it over: up to a NUL. -/
def cString (s : Bytes) : Bytes := s.takeWhile (· ≠ Char.ofNat 0)

def OverlayLink.values (link : OverlayLink) : List Bytes :=
  [link.underlay, link.link_type, link.traffic_destination, link.link_metadata]

/-- `overlay_link_data`. -/
def overlay_link_data (link : OverlayLink) : Bytes :=
  cString link.underlay ++ '@' :: (cString link.link_type ++ '@' ::
    (cString link.traffic_destination ++ '@' :: cString link.link_metadata))

/-- `linkmap`, by the overlay. -/
def linkmapOf (links : List OverlayLink) : OrderedMap String Bytes :=
  .ofList (links.map fun link => (String.ofList (cString link.overlay), overlay_link_data link))

/-- The fields that can name an overlay. -/
def linkFields : List String :=
  ["destination-interface-name", "last-incoming-interface-name", "uplink-incoming-interface-name",
    "last-destination-interface-name"]

/-- What stands before the field's name in the names of the four decorations. -/
def linkPrefixes : List String := ["underlay-", "link-type-", "traffic-destination-", "metadata-"]

/-- The decorations for one field; `none` where `link_data` is read out of range. -/
def decorateLink (linkmap : OrderedMap String Bytes) (v : SyslogMap) (field : String) :
    Option SyslogMap :=
  let overlay_link := GetMapVals v field []
  if overlay_link ≠ [] ∧ overlay_link ≠ "N/A".toList then
    match linkmap.find? (String.ofList overlay_link) with
    | none => some v
    | some data =>
      match splitCompress '@' data with
      | underlay :: link_type :: traffic_destination :: link_metadata :: _ =>
        some ((((v.insert ("underlay-" ++ field) (.str underlay)).insert ("link-type-" ++ field)
          (.str link_type)).insert ("traffic-destination-" ++ field)
          (.str traffic_destination)).insert ("metadata-" ++ field) (.str link_metadata))
      | _ => none
  else some v

/-- The loop over the fields. -/
def decorateLinks (linkmap : OrderedMap String Bytes) (v : SyslogMap) : Option SyslogMap :=
  linkFields.foldlM (decorateLink linkmap) v

-- ---------------------------------------------------------------------------
-- What should come through
-- ---------------------------------------------------------------------------

/-- A field can name the overlay. -/
def OverlayLink.Usable (link : OverlayLink) : Prop :=
  link.overlay ≠ [] ∧ link.overlay ≠ "N/A".toList

/-- No access is out of range, and for every field that names a link's overlay the four
decorations that the message does not have already are the link's texts. -/
def LinksSurvive (links : List OverlayLink) : Prop :=
  ∀ v, ∃ v', decorateLinks (linkmapOf links) v = some v' ∧
    ∀ link ∈ links, link.Usable → ∀ field ∈ linkFields, GetMapVals v field [] = link.overlay →
      ∀ entry ∈ linkPrefixes.zip link.values, v.find? (entry.1 ++ field) = none →
        v'.find? (entry.1 ++ field) = some (.str entry.2)

/-- The texts that come through. -/
structure OverlayLink.Plain (link : OverlayLink) : Prop where
  overlay : Char.ofNat 0 ∉ link.overlay
  values : ∀ s ∈ link.values, '@' ∉ s ∧ Char.ofNat 0 ∉ s
  link_type : link.link_type ≠ []
  traffic_destination : link.traffic_destination ≠ []

-- ---------------------------------------------------------------------------
-- Packing
-- ---------------------------------------------------------------------------

theorem cString_eq {s : Bytes} (h : Char.ofNat 0 ∉ s) : cString s = s := by
  refine List.takeWhile_eq_self_iff.mpr fun c hc => ?_
  simp only [ne_eq, decide_not, Bool.not_eq_true', decide_eq_false_iff_not]
  exact fun heq => h (heq ▸ hc)

theorem not_mem_cString (s : Bytes) : Char.ofNat 0 ∉ cString s := by
  intro h
  have := List.mem_takeWhile_imp h
  simp at this

theorem overlay_link_data_eq (link : OverlayLink) : overlay_link_data link =
    ['@'].intercalate (link.values.map cString) := by
  simp [overlay_link_data, OverlayLink.values, List.intercalate]

theorem OverlayLink.Plain.map_cString {link : OverlayLink} (h : link.Plain) :
    link.values.map cString = link.values :=
  (List.map_congr_left fun s hs => cString_eq (h.values s hs).2).trans (List.map_id _)

/-- The four texts are read back. -/
theorem OverlayLink.Plain.splitCompress {link : OverlayLink} (h : link.Plain) :
    splitCompress '@' (overlay_link_data link) = link.values := by
  have hparts : ∀ part ∈ link.underlay :: [link.link_type, link.traffic_destination] ++
      [link.link_metadata], '@' ∉ part := fun part hpart => (h.values part hpart).1
  rw [overlay_link_data_eq, h.map_cString]
  refine (splitCompress_intercalate hparts).trans ?_
  simp [h.link_type, h.traffic_destination, OverlayLink.values]

-- ---------------------------------------------------------------------------
-- The decorations
-- ---------------------------------------------------------------------------

/-- What the linkmap has for the overlay that the field names. -/
def namedData (linkmap : OrderedMap String Bytes) (v : SyslogMap) (field : String) :
    Option Bytes :=
  if GetMapVals v field [] ≠ [] ∧ GetMapVals v field [] ≠ "N/A".toList then
    linkmap.find? (String.ofList (GetMapVals v field []))
  else none

/-- The decorations of the field, and no others. -/
@[mk_iff]
structure Decorated (linkmap : OrderedMap String Bytes) (v v' : SyslogMap) (field : String) :
    Prop where
  texts : ∀ data, namedData linkmap v field = some data →
    ∀ entry ∈ linkPrefixes.zip (splitCompress '@' data),
      v'.find? (entry.1 ++ field) = some ((v.find? (entry.1 ++ field)).getD (.str entry.2))
  nothing : namedData linkmap v field = none → ∀ p ∈ linkPrefixes,
    v'.find? (p ++ field) = v.find? (p ++ field)

/-- The data of the field's overlay, if there is any, has four texts. -/
def FourTexts (linkmap : OrderedMap String Bytes) (v : SyslogMap) (field : String) : Prop :=
  ∀ data, namedData linkmap v field = some data → 4 ≤ (splitCompress '@' data).length

variable {linkmap : OrderedMap String Bytes}

/-- The names of decorations tell their field and their text, and name no overlay. -/
theorem linkNames : ∀ p ∈ linkPrefixes, ∀ q ∈ linkPrefixes, ∀ field ∈ linkFields,
    ∀ field' ∈ linkFields,
      (p ++ field = q ++ field' → p = q ∧ field = field') ∧ p ++ field ≠ field' := by
  decide +kernel

theorem decorateLink_step (v : SyslogMap) (field : String) :
    ((decorateLink linkmap v field).isSome ↔ FourTexts linkmap v field) ∧
      ∀ v', decorateLink linkmap v field = some v' →
        (∀ key, (∀ p ∈ linkPrefixes, key ≠ p ++ field) → v'.find? key = v.find? key) ∧
          Decorated linkmap v v' field := by
  simp only [decorated_iff]
  unfold decorateLink FourTexts namedData
  by_cases hnamed : GetMapVals v field [] ≠ [] ∧ GetMapVals v field [] ≠ "N/A".toList
  · rw [if_pos hnamed]
    simp only [if_pos hnamed]
    cases hfind : linkmap.find? (String.ofList (GetMapVals v field [])) with
    | none => simp
    | some data =>
      simp only [Option.some.injEq, forall_eq']
      match htokens : splitCompress '@' data with
      | underlay :: link_type :: traffic_destination :: link_metadata :: rest =>
        refine ⟨by simp, fun v' hv' => ?_⟩
        simp only [Option.some.injEq] at hv'
        subst hv'
        refine ⟨fun key hkey => ?_, ?_, (nomatch ·)⟩
        · have hkey' : ∀ p ∈ linkPrefixes, key ≠ p ++ field := hkey
          simp only [linkPrefixes, List.forall_mem_cons] at hkey'
          obtain ⟨h₁, h₂, h₃, h₄, -⟩ := hkey'
          simp [OrderedMap.find?_insert, h₁, h₂, h₃, h₄]
        · simp only [linkPrefixes, List.zip_cons_cons, List.zip_nil_left, List.forall_mem_cons,
            List.not_mem_nil, false_implies, implies_true, and_true]
          exact ⟨by simp [OrderedMap.find?_insert], by simp [OrderedMap.find?_insert],
            by simp [OrderedMap.find?_insert], by simp [OrderedMap.find?_insert]⟩
      | [] | [_] | [_, _] | [_, _, _] => simp
  · rw [if_neg hnamed]
    simp only [if_neg hnamed]
    simp

/-- The loop over some of the fields. -/
theorem decorateLinks_run {fields : List String} (hsub : ∀ field ∈ fields, field ∈ linkFields)
    (hnodup : fields.Nodup) (v : SyslogMap) :
    ((fields.foldlM (decorateLink linkmap) v).isSome ↔
        ∀ field ∈ fields, FourTexts linkmap v field) ∧
      ∀ v', fields.foldlM (decorateLink linkmap) v = some v' →
        (∀ key, (∀ field ∈ fields, ∀ p ∈ linkPrefixes, key ≠ p ++ field) →
          v'.find? key = v.find? key) ∧
        ∀ field ∈ fields, Decorated linkmap v v' field := by
  induction fields generalizing v with
  | nil => simp
  | cons field fields ih =>
    obtain ⟨hf, hsub⟩ := List.forall_mem_cons.mp hsub
    obtain ⟨hnotin, hnodup⟩ := List.nodup_cons.mp hnodup
    obtain ⟨hok, hstep⟩ := @decorateLink_step linkmap v field
    rw [List.foldlM_cons, List.forall_mem_cons, ← hok]
    cases hdec : decorateLink linkmap v field with
    | none => simp
    | some v₁ =>
      obtain ⟨hsame, hthis⟩ := hstep v₁ hdec
      obtain ⟨hrunok, hrun⟩ := ih hsub hnodup v₁
      -- the first step leaves the other fields alone, and what is looked up for them
      have hval : ∀ field' ∈ linkFields, namedData linkmap v₁ field' = namedData linkmap v field' := by
        intro field' hf'
        have := hsame field' fun p hp heq => (linkNames p hp p hp field hf field' hf').2 heq.symm
        rw [namedData, namedData, GetMapVals, GetMapVals, this]
      have hother : ∀ field' ∈ fields, ∀ p ∈ linkPrefixes,
          v₁.find? (p ++ field') = v.find? (p ++ field') := by
        intro field' hf' p hp
        refine hsame _ fun q hq heq => hnotin ?_
        exact ((linkNames p hp q hq field' (hsub _ hf') field hf).1 heq).2 ▸ hf'
      have hfour : ∀ field' ∈ fields, (FourTexts linkmap v₁ field' ↔ FourTexts linkmap v field') :=
        fun field' hf' => by rw [FourTexts, FourTexts, hval field' (hsub _ hf')]
      show ((fields.foldlM (decorateLink linkmap) v₁).isSome ↔ _) ∧
        ∀ v', fields.foldlM (decorateLink linkmap) v₁ = some v' → _
      rw [hrunok, forall₂_congr hfour]
      refine ⟨by simp, fun v' hv' => ?_⟩
      obtain ⟨hrest, hdone⟩ := hrun v' hv'
      refine ⟨fun key hkey => ?_, ?_⟩
      · obtain ⟨hkey, hkeys⟩ := List.forall_mem_cons.mp hkey
        rw [hrest key hkeys, hsame key hkey]
      · -- the later ones leave alone what it has written
        have hkept : ∀ p ∈ linkPrefixes, v'.find? (p ++ field) = v₁.find? (p ++ field) := by
          refine fun p hp => hrest _ fun field' hf' q hq heq => hnotin ?_
          exact ((linkNames p hp q hq field hf field' (hsub _ hf')).1 heq).2 ▸ hf'
        refine List.forall_mem_cons.mpr ⟨⟨?_, ?_⟩, fun field' hf' => ⟨?_, ?_⟩⟩
        · intro data hdata entry hentry
          rw [hkept _ (List.of_mem_zip hentry).1, hthis.texts data hdata entry hentry]
        · intro hnone p hp
          rw [hkept p hp, hthis.nothing hnone p hp]
        · intro data hdata entry hentry
          rw [← hval field' (hsub _ hf')] at hdata
          rw [(hdone field' hf').texts data hdata entry hentry,
            hother field' hf' _ (List.of_mem_zip hentry).1]
        · intro hnone p hp
          rw [← hval field' (hsub _ hf')] at hnone
          rw [(hdone field' hf').nothing hnone p hp, hother field' hf' p hp]

theorem decorateLinks_spec (linkmap : OrderedMap String Bytes) (v : SyslogMap) :
    ((decorateLinks linkmap v).isSome ↔ ∀ field ∈ linkFields, FourTexts linkmap v field) ∧
      ∀ v', decorateLinks linkmap v = some v' →
        ∀ field ∈ linkFields, Decorated linkmap v v' field :=
  have ⟨hok, hrun⟩ := decorateLinks_run (fun _ h => h) (by decide) v
  ⟨hok, fun v' hv' => (hrun v' hv').2⟩

-- ---------------------------------------------------------------------------
-- When they come through
-- ---------------------------------------------------------------------------

/-- The linkmap has the data of the first link of the overlay. -/
theorem linkmapOf_find? (links : List OverlayLink) (overlay : Bytes) :
    (linkmapOf links).find? (String.ofList overlay) =
      (links.find? fun l => cString l.overlay = overlay).map overlay_link_data := by
  rw [linkmapOf, OrderedMap.find?_ofList]
  induction links with
  | nil => rfl
  | cons link links ih =>
    rw [List.map_cons, findList, List.find?_cons, ih]
    by_cases h : cString link.overlay = overlay
    · simp [h]
    · have : String.ofList overlay ≠ String.ofList (cString link.overlay) :=
        fun heq => h (String.ofList_injective heq).symm
      simp [h, this]

/-- A link whose texts are those that its overlay is looked up to, and can be read back. -/
def OverlayLink.Kept (links : List OverlayLink) (link : OverlayLink) : Prop :=
  link.Plain ∧ ∀ first, links.find? (fun l => l.overlay = link.overlay) = some first →
    first.values = link.values

/-- Only an overlay that can be used is cut at a NUL. -/
theorem find?_cString {links : List OverlayLink} {overlay : Bytes}
    (hplain : ∀ l ∈ links, l.Usable → Char.ofNat 0 ∉ l.overlay) :
    (links.find? fun l => cString l.overlay = overlay) =
      links.find? fun l => l.overlay = overlay := by
  refine List.find?_congr fun l hl => ?_
  have hl : cString l.overlay = l.overlay := by
    refine cString_eq fun hnul => hplain l hl ⟨?_, ?_⟩ hnul
    · exact List.ne_nil_of_mem hnul
    · rintro heq
      rw [heq] at hnul
      exact absurd hnul (by decide)
  rw [hl]

/-- Tokens of the data that are the four texts: then the texts are plain. -/
theorem OverlayLink.values_of_tokens {link : OverlayLink}
    (hlength : 4 ≤ (splitCompress '@' (overlay_link_data link)).length)
    (hvalues : (splitCompress '@' (overlay_link_data link)).take 4 = link.values) :
    (∀ s ∈ link.values, '@' ∉ s ∧ Char.ofNat 0 ∉ s) ∧ link.link_type ≠ [] ∧
      link.traffic_destination ≠ [] := by
  have hplain : ∀ s ∈ link.values, '@' ∉ s ∧ Char.ofNat 0 ∉ s := by
    intro s hs
    rw [← hvalues] at hs
    have hs := List.mem_of_mem_take hs
    refine ⟨not_mem_of_mem_splitOn s (mem_splitOn_of_mem_splitCompress hs), fun hnul => ?_⟩
    have hnul := mem_of_mem_splitOn (mem_splitOn_of_mem_splitCompress hs) hnul
    simp [overlay_link_data, not_mem_cString] at hnul
  have hmap : link.values.map cString = link.values :=
    (List.map_congr_left fun s hs => cString_eq (hplain s hs).2).trans (List.map_id _)
  have hparts : ∀ part ∈ link.underlay :: [link.link_type, link.traffic_destination] ++
      [link.link_metadata], '@' ∉ part := fun part hpart => (hplain part hpart).1
  have hsplit := congrArg List.length (splitCompress_intercalate hparts)
  rw [overlay_link_data_eq, hmap] at hlength
  have htwo : 2 ≤ ([link.link_type, link.traffic_destination].filter (· ≠ [])).length := by
    rw [List.length_cons, List.length_append] at hsplit
    exact Nat.le_of_add_le_add_right (b := 2) (hlength.trans hsplit.le)
  have hall := List.filter_eq_self.mp
    ((List.filter_sublist (l := [link.link_type, link.traffic_destination])).eq_of_length_le htwo)
  exact ⟨hplain, by simpa using hall⟩

/-- The message with nothing but a field that names the overlay. -/
def naming (overlay : Bytes) : SyslogMap :=
  OrderedMap.empty.insert "destination-interface-name" (.str overlay)

theorem LinksSurvive.tokens {links : List OverlayLink} (h : LinksSurvive links) {link : OverlayLink}
    (hlink : link ∈ links) (husable : link.Usable) :
    ∃ data, (linkmapOf links).find? (String.ofList link.overlay) = some data ∧
      4 ≤ (splitCompress '@' data).length ∧ (splitCompress '@' data).take 4 = link.values := by
  have hf : "destination-interface-name" ∈ linkFields := by decide
  have hval : GetMapVals (naming link.overlay) "destination-interface-name" [] = link.overlay := by
    rw [GetMapVals, naming, OrderedMap.find?_insert, if_pos rfl]
    rfl
  -- the call for a message that names the link in one field and has nothing else
  obtain ⟨v', hv', hsurvive⟩ := h (naming link.overlay)
  obtain ⟨hok, hspec⟩ := decorateLinks_spec (linkmapOf links) (naming link.overlay)
  have hfour := hok.mp (by rw [hv']; rfl) _ hf
  have hdec := hspec v' hv' _ hf
  have hnone : ∀ p ∈ linkPrefixes,
      (naming link.overlay).find? (p ++ "destination-interface-name") = none := by
    intro p hp
    rw [naming, OrderedMap.find?_insert, if_neg (linkNames p hp p hp _ hf _ hf).2,
      OrderedMap.find?_empty]
  have hgot := hsurvive link hlink husable _ hf hval
  have hnamed : namedData (linkmapOf links) (naming link.overlay) "destination-interface-name" =
      (linkmapOf links).find? (String.ofList link.overlay) := by
    rw [namedData, hval]
    exact if_pos husable
  rw [FourTexts, hnamed] at hfour
  cases hdata : (linkmapOf links).find? (String.ofList link.overlay) with
  | none =>
    -- no data: the field for the underlay would stay unset
    have hp : "underlay-" ∈ linkPrefixes := by decide
    have hunder := hgot ("underlay-", link.underlay) (by simp [linkPrefixes, OverlayLink.values])
      (hnone _ hp)
    rw [hdec.nothing (hnamed.trans hdata) _ hp, hnone _ hp] at hunder
    nomatch hunder
  | some data =>
    refine ⟨data, rfl, hfour data hdata, ?_⟩
    have htexts := hdec.texts data (hnamed.trans hdata)
    have hall := hfour data hdata
    match htokens : splitCompress '@' data with
    | [] | [_] | [_, _] | [_, _, _] => simp [htokens] at hall
    | underlay :: link_type :: traffic_destination :: link_metadata :: rest =>
      -- each text of the data goes into the field where the text of the link is looked for
      have hsame : ∀ p s token, (p, s) ∈ linkPrefixes.zip link.values →
          (p, token) ∈ linkPrefixes.zip (splitCompress '@' data) → token = s := by
        intro p s token hs htoken
        have hp := hnone p (List.of_mem_zip hs).1
        have hgot := hgot (p, s) hs hp
        rw [htexts (p, token) htoken, hp] at hgot
        simpa using hgot
      rw [htokens] at hsame
      have h₁ := hsame "underlay-" link.underlay underlay
      have h₂ := hsame "link-type-" link.link_type link_type
      have h₃ := hsame "traffic-destination-" link.traffic_destination traffic_destination
      have h₄ := hsame "metadata-" link.link_metadata link_metadata
      simp only [linkPrefixes, OverlayLink.values, List.zip_cons_cons, List.mem_cons, true_or,
        or_true, forall_const] at h₁ h₂ h₃ h₄
      rw [h₁, h₂, h₃, h₄]
      rfl

theorem links_survive_iff (links : List OverlayLink) :
    LinksSurvive links ↔ ∀ link ∈ links, link.Usable → link.Kept links := by
  constructor
  · intro h
    -- a link that survives has been found by its whole overlay text
    have hnul : ∀ l ∈ links, l.Usable → Char.ofNat 0 ∉ l.overlay := by
      intro l hl husable hnul
      obtain ⟨data, hdata, -⟩ := h.tokens hl husable
      rw [linkmapOf_find?] at hdata
      obtain ⟨first, hfirst, -⟩ := Option.map_eq_some_iff.mp hdata
      have hkey : cString first.overlay = l.overlay := by simpa using List.find?_some hfirst
      exact not_mem_cString first.overlay (hkey ▸ hnul)
    intro link hlink husable
    obtain ⟨data, hdata, hlength, hvalues⟩ := h.tokens hlink husable
    rw [linkmapOf_find?, find?_cString hnul] at hdata
    obtain ⟨first, hfirst, rfl⟩ := Option.map_eq_some_iff.mp hdata
    have hoverlay : first.overlay = link.overlay := by simpa using List.find?_some hfirst
    have hmem := List.mem_of_find?_eq_some hfirst
    -- the data is that of the first link, whose texts come through as well
    obtain ⟨data', hdata', -, hvalues'⟩ := h.tokens hmem (by rwa [OverlayLink.Usable, hoverlay])
    rw [hoverlay, linkmapOf_find?, find?_cString hnul, hfirst] at hdata'
    cases hdata'
    have hsame : first.values = link.values := hvalues'.symm.trans hvalues
    obtain ⟨hplain, htype, htraffic⟩ := first.values_of_tokens hlength hvalues'
    have hplain' : link.Plain := by
      rw [hsame] at hplain
      simp only [OverlayLink.values, List.cons.injEq, and_true] at hsame
      obtain ⟨-, htype', htraffic', -⟩ := hsame
      exact ⟨hnul link hlink husable, hplain, htype' ▸ htype, htraffic' ▸ htraffic⟩
    refine ⟨hplain', fun first' hfirst' => ?_⟩
    rw [hfirst] at hfirst'
    cases hfirst'
    exact hsame
  · -- conversely a link that is found is the first with its overlay, and has its values
    intro h v
    have hnul : ∀ l ∈ links, l.Usable → Char.ofNat 0 ∉ l.overlay :=
      fun l hl husable => (h l hl husable).1.overlay
    obtain ⟨hok, hspec⟩ := decorateLinks_spec (linkmapOf links) v
    have hdata : ∀ field data, namedData (linkmapOf links) v field = some data →
        ∃ first, links.find? (fun l => l.overlay = GetMapVals v field []) = some first ∧
          splitCompress '@' data = first.values := by
      intro field data hnamed
      rw [namedData, linkmapOf_find?, find?_cString hnul] at hnamed
      split at hnamed
      · rename_i husable
        obtain ⟨first, hfirst, rfl⟩ := Option.map_eq_some_iff.mp hnamed
        have hoverlay : first.overlay = GetMapVals v field [] := by
          simpa using List.find?_some hfirst
        have hplain := (h first (List.mem_of_find?_eq_some hfirst)
          (by rwa [OverlayLink.Usable, hoverlay])).1
        exact ⟨first, hfirst, hplain.splitCompress⟩
      · nomatch hnamed
    -- no link is cut to less than four parts, so none aborts
    have hsome : (decorateLinks (linkmapOf links) v).isSome := by
      refine hok.mpr fun field _ data hnamed => ?_
      obtain ⟨first, -, hsplit⟩ := hdata field data hnamed
      rw [hsplit]
      exact Nat.le_refl 4
    obtain ⟨v', hv'⟩ := Option.isSome_iff_exists.mp hsome
    refine ⟨v', hv', fun link hlink husable field hf hval entry hentry hnone => ?_⟩
    have hnamed : namedData (linkmapOf links) v field =
        (links.find? fun l => l.overlay = link.overlay).map overlay_link_data := by
      rw [namedData, hval, linkmapOf_find?, find?_cString hnul]
      exact if_pos husable
    have hfound : (links.find? fun l => l.overlay = link.overlay).isSome :=
      List.find?_isSome.mpr ⟨link, hlink, by simp⟩
    obtain ⟨first, hfirst⟩ := Option.isSome_iff_exists.mp hfound
    rw [hfirst] at hnamed
    obtain ⟨first', hfirst', hsplit⟩ := hdata field _ hnamed
    rw [hval, hfirst] at hfirst'
    cases hfirst'
    have htexts := (hspec v' hv' field hf).texts _ hnamed entry
    rw [hsplit, (h link hlink husable).2 first hfirst] at htexts
    rw [htexts hentry, hnone]
    rfl

/-- An empty link type is lost, and with it the number of texts. -/
theorem not_linksSurvive : ¬ LinksSurvive
    [⟨"reth1".toList, "Underlay_IPv4".toList, [], "Internet".toList, "blue".toList⟩] := by
  intro h
  obtain ⟨data, hdata, hlength, -⟩ := h.tokens List.mem_cons_self ⟨by decide, by decide⟩
  rw [linkmapOf_find?, List.find?_cons_of_pos (by decide)] at hdata
  obtain rfl := Option.some.inj hdata
  exact absurd hlength (by decide +kernel)

end TfAnalytics.Collector
