import TfAnalytics.OpServer.UveStreamPart

/-!
# Analytics API — a UVE stream follows the aggregated UVEs

The alarm generator writes rows to AGPARTVALUES and publishes their keys and types
(`send_agg_uve`). `UveStreamPart._run` subscribes, lists the keys, reads the UVEs and
then takes the published messages one after another. The two run at the same time:
rows are sent between any two steps of the stream, and a message is processed with
the values that are stored by then.

With a filter on types the notification that a whole UVE is gone does not pass, for it
has no type.

* `coherent_send_agg_uve`: what the alarm generator keeps of its aggregate;
* `reported_processBatch`: what a message does to what is reported of a struct;
* `stream_converges`: once all messages are processed, what is reported is what is
  stored and passes the filters.
-/

namespace TfAnalytics.OpServer

open TfAnalytics.Lib

variable {J α : Type}

-- ---------------------------------------------------------------------------
-- The stream and the alarm generator
-- ---------------------------------------------------------------------------

/-- `pub_list`. -/
def pubList (rows : List (OutputRow α)) : List Notif := rows.map fun row => ⟨row.key, row.typ⟩

/-- How far `_run` has come. -/
inductive Phase where
  | idle
  | subscribed
  /-- `smembers` has answered with these keys -/
  | listed (keys : List String)
  | running
  deriving DecidableEq

structure FollowState (J : Type) where
  lredis : Redis
  /-- the messages that are published and not yet taken -/
  queue : List (List Notif)
  phase : Phase
  stream : Stream J

inductive FollowEvent (α : Type) where
  | send (rows : List (OutputRow α))
  | subscribe
  | smembers
  | sync
  | process

/-- A step that raises an exception is not enabled. -/
def followStep (p : UveStreamPart J) (c : AggConf α) (s : FollowState J) :
    FollowEvent α → Option (FollowState J)
  | .send rows =>
    some { s with
      lredis := send_agg_uve c s.lredis rows
      queue := if s.phase = .idle then s.queue else s.queue ++ [pubList rows] }
  | .subscribe => if s.phase = .idle then some { s with phase := .subscribed } else none
  | .smembers =>
    if s.phase = .subscribed then
      some { s with phase := .listed (s.lredis.smembers p.agPartKeys) }
    else none
  | .sync =>
    match s.phase with
    | .listed keys =>
      (p.syncpart keys s.lredis s.stream).toOption.map fun stream =>
        { s with phase := .running, stream }
    | _ => none
  | .process =>
    match s.phase, s.queue with
    | .running, elems :: queue =>
      (p.processBatch s.lredis elems s.stream).toOption.map fun stream =>
        { s with queue, stream }
    | _, _ => none

/-- A stream that starts when the aggregate is `lredis`. -/
def followSystem (p : UveStreamPart J) (c : AggConf α) (lredis : Redis) :
    System (FollowState J) (FollowEvent α) where
  init := ⟨lredis, [], .idle, ⟨.empty, []⟩⟩
  step := followStep p c

-- ---------------------------------------------------------------------------
-- What is reported, and what is stored
-- ---------------------------------------------------------------------------

/-- What a call says about a struct: a call without a type is about the whole UVE. -/
def callEffect (key typ : String) (reported : Bool) (call : StreamCall J) : Bool :=
  if call.key = key then
    match call.typ with
    | none => false
    | some t => if t = typ then call.value.isSome else reported
  else reported

/-- The struct was reported, and has not been withdrawn since. -/
def reported (calls : List (StreamCall J)) (key typ : String) : Bool :=
  calls.foldl (callEffect key typ) false

/-- The aggregate has the struct. -/
def Stored (c : AggConf α) (redish : Redis) (key typ : String) : Prop :=
  (redish.hget (c.agPartValues key) typ).isSome = true

/-- The filters let the struct pass. -/
def UveStreamPart.Passes (p : UveStreamPart J) (key typ : String) : Prop :=
  p.keyPasses key = some true ∧ p.typePasses (some typ) = true

/-- An aggregate as the alarm generator leaves it. -/
structure AggCoherent (p : UveStreamPart J) (c : AggConf α) (redish : Redis) : Prop where
  /-- it is of the current acquisition of the partition, or of none -/
  acq : AcqCurrent c redish
  /-- a UVE with contents is in the index -/
  indexed : ∀ key, redish.hashes (c.agPartValues key) ≠ [] → key ∈ redish.sets c.agPartKeys
  /-- keys are table:name -/
  keyed : ∀ key ∈ redish.sets c.agPartKeys, (splitKey key).isSome = true
  /-- the contents are JSON, and not null -/
  parses : ∀ key, ∀ e ∈ redish.hashes (c.agPartValues key), ∃ j, p.lib.loads e.2 = some (some j)

/-- What is sent to a stream that runs: keys are table:name, and with a filter on types
no UVE is deleted that has a struct which passes, unless the same rows name the struct. -/
def Announced (p : UveStreamPart J) (c : AggConf α) (s : FollowState J) : FollowEvent α → Prop
  | .send rows =>
    (∀ row ∈ rows, (splitKey row.key).isSome = true) ∧
      (s.phase = .running → p._cfilter ≠ [] → ∀ row ∈ rows, row.typ = none →
        ∀ typ, p.Passes row.key typ → Stored c s.lredis row.key typ →
          ∃ row' ∈ rows, row'.key = row.key ∧ row'.typ = some typ)
  | _ => True

-- ---------------------------------------------------------------------------
-- What the alarm generator keeps
-- ---------------------------------------------------------------------------

section Store

variable (p : UveStreamPart J) (c : AggConf α)

theorem agPartValues_ne_agPartKeys (key : String) : c.agPartValues key ≠ c.agPartKeys := by
  intro h
  have hchar := congrArg (fun s => s.toList[6]?) h
  unfold AggConf.agPartValues AggConf.agPartKeys at hchar
  simp at hchar

/-- A row leaves contents of a UVE, or writes its value there and enters the key. -/
theorem sendRow_hashes (redish : Redis) (row : OutputRow α) (key : String) {e : String × String}
    (he : e ∈ (sendRow c redish row).hashes (c.agPartValues key)) :
    (e ∈ redish.hashes (c.agPartValues key) ∧
        (key ∈ redish.sets c.agPartKeys → key ∈ (sendRow c redish row).sets c.agPartKeys)) ∨
      (row.key = key ∧ key ∈ (sendRow c redish row).sets c.agPartKeys ∧
        ∃ val, row.val = some val ∧ e.2 = c.dumps val) := by
  obtain ⟨rkey, typ, val⟩ := row
  have hvalues := agPartValues_ne_agPartKeys c
  cases typ with
  | none =>
    simp only [sendRow, Redis.del_hashes, Redis.srem_hashes, agPartValues_inj] at he
    split at he
    · cases he
    · rename_i hne
      refine Or.inl ⟨he, fun hkey => ?_⟩
      simp [sendRow, hkey, hne, (hvalues rkey).symm]
  | some typ =>
    cases val with
    | none =>
      refine Or.inl ⟨?_, fun hkey => hkey⟩
      by_cases hk : key = rkey
      · subst hk
        simp only [sendRow, Redis.hdel, Redis.hashErase, if_true, List.mem_filter] at he
        exact he.1
      · rw [sendRow, Redis.hdel_hashes_of_ne _ _ _ _ (fun h => hk ((agPartValues_inj c).mp h))] at he
        exact he
    | some val =>
      by_cases hk : key = rkey
      · subst hk
        simp only [sendRow, Redis.hset_hashes_self, Redis.sadd_hashes, List.mem_cons] at he
        rcases he with rfl | he
        · exact Or.inr ⟨rfl, by simp [sendRow], val, rfl, rfl⟩
        · refine Or.inl ⟨(List.mem_filter.mp he).1, fun hkey => by simp [sendRow]⟩
      · rw [sendRow, Redis.hset_hashes_of_ne _ _ _ _ _ (fun h => hk ((agPartValues_inj c).mp h))] at he
        exact Or.inl ⟨he, fun hkey => by simp [sendRow, hkey]⟩

theorem sendRow_sets (redish : Redis) (row : OutputRow α) {key : String}
    (hkey : key ∈ (sendRow c redish row).sets c.agPartKeys) :
    key ∈ redish.sets c.agPartKeys ∨ key = row.key := by
  obtain ⟨rkey, typ, val⟩ := row
  cases typ with
  | none =>
    simp only [sendRow, Redis.mem_del_sets, Redis.mem_srem] at hkey
    exact Or.inl hkey.1.1
  | some typ =>
    cases val with
    | none => exact Or.inl hkey
    | some val =>
      simp only [sendRow, Redis.hset_sets, Redis.mem_sadd, true_and] at hkey
      exact hkey

variable {p c} (hdumps : ∀ v, ∃ j, p.lib.loads (c.dumps v) = some (some j))
include hdumps

theorem coherent_sendRow {redish : Redis} (h : AggCoherent p c redish) {row : OutputRow α}
    (hrow : (splitKey row.key).isSome = true) : AggCoherent p c (sendRow c redish row) where
  acq old hold := h.acq old (sendRow_agParts c redish row _ ▸ hold)
  indexed key hne := by
    obtain ⟨e, he⟩ := List.exists_mem_of_ne_nil _ hne
    rcases sendRow_hashes c redish row key he with ⟨hold, hkept⟩ | ⟨-, hkey, -⟩
    · exact hkept (h.indexed key (List.ne_nil_of_mem hold))
    · exact hkey
  keyed key hkey := by
    rcases sendRow_sets c redish row hkey with hold | rfl
    · exact h.keyed key hold
    · exact hrow
  parses key e he := by
    rcases sendRow_hashes c redish row key he with ⟨hold, -⟩ | ⟨-, -, val, -, hval⟩
    · exact h.parses key e hold
    · rw [hval]
      exact hdumps val

omit hdumps in
theorem coherent_acqChecked {redish : Redis} (h : AggCoherent p c redish) :
    AggCoherent p c (acqChecked c redish) := by
  have hacq := (acqChecked_current c h.acq).1
  unfold acqChecked at hacq ⊢
  cases hold : redish.hget c.agParts (toString c.part) with
  | none =>
    have hhashes : ∀ key, (redish.hset c.agParts (toString c.part) (toString c.acq_time)).hashes
        (c.agPartValues key) = redish.hashes (c.agPartValues key) :=
      fun key => Redis.hset_hashes_of_ne _ _ _ _ _ (agPartValues_ne_agParts c key)
    rw [hold] at hacq
    exact ⟨hacq, fun key hne => h.indexed key (hhashes key ▸ hne), h.keyed,
      fun key e he => h.parses key e (hhashes key ▸ he)⟩
  | some old =>
    have hsame : ¬old ≠ toString c.acq_time := not_not.mpr (h.acq old hold)
    simp only [if_neg hsame]
    exact h

omit hdumps in
/-- Keys without contents may go from the index. -/
theorem coherent_foldl_srem (gone : List String) {redish : Redis} (h : AggCoherent p c redish)
    (hgone : ∀ kk ∈ gone, redish.exists (c.agPartValues kk) = false) :
    AggCoherent p c (gone.foldl (fun redish kk => redish.srem c.agPartKeys kk) redish) := by
  induction gone generalizing redish with
  | nil => exact h
  | cons kk gone ih =>
    have hempty : redish.hashes (c.agPartValues kk) = [] := by
      have hnot := hgone kk List.mem_cons_self
      simp only [Redis.exists, Bool.or_eq_false_iff, Bool.not_eq_false', List.isEmpty_iff] at hnot
      exact hnot.1.2
    have hstep : AggCoherent p c (redish.srem c.agPartKeys kk) := by
      refine ⟨h.acq, fun key hne => ?_, fun key hkey => ?_, h.parses⟩
      · rw [Redis.mem_srem]
        refine ⟨h.indexed key hne, fun hkk => hne ?_⟩
        rw [Redis.srem_hashes, hkk.2]
        exact hempty
      · exact h.keyed key ((Redis.mem_srem _ _ _ _).mp hkey).1
    refine ih hstep fun kk' hkk' => ?_
    have hnot := hgone kk' (List.mem_cons_of_mem kk hkk')
    rw [← hnot, Redis.exists, Redis.exists, Redis.srem_sets_of_ne _ _ _ _
      (agPartValues_ne_agPartKeys c kk')]
    rfl

theorem coherent_send_agg_uve {redish : Redis} (h : AggCoherent p c redish)
    {rows : List (OutputRow α)} (hrows : ∀ row ∈ rows, (splitKey row.key).isSome = true) :
    AggCoherent p c (send_agg_uve c redish rows) := by
  have hfold : ∀ (rows : List (OutputRow α)) (redish : Redis), AggCoherent p c redish →
      (∀ row ∈ rows, (splitKey row.key).isSome = true) →
      AggCoherent p c (rows.foldl (sendRow c) redish) := by
    intro rows
    induction rows with
    | nil => exact fun redish h _ => h
    | cons row rows ih =>
      intro redish h hrows
      exact ih _ (coherent_sendRow hdumps h (hrows row List.mem_cons_self))
        fun row' hrow' => hrows row' (List.mem_cons_of_mem row hrow')
  refine coherent_foldl_srem _ (hfold rows _ (coherent_acqChecked h) hrows) fun kk hkk => ?_
  have hnot := (List.mem_filter.mp hkk).2
  rw [Bool.not_eq_true'] at hnot
  exact hnot

end Store

-- ---------------------------------------------------------------------------
-- What rows do to a struct, and what they publish about it
-- ---------------------------------------------------------------------------

/-- An element that passes the filter on types and is about the struct or its UVE. -/
def UveStreamPart.about (p : UveStreamPart J) (key typ : String) (elem : Notif) : Bool :=
  elem.key = key && (elem.typ = some typ || elem.typ = none && p._cfilter.isEmpty)

/-- The element that decides what is reported of the struct. -/
def UveStreamPart.lastAbout (p : UveStreamPart J) (key typ : String) (elems : List Notif) :
    Option Notif :=
  (elems.filter (p.about key typ)).getLast?

theorem UveStreamPart.lastAbout_append (p : UveStreamPart J) (key typ : String)
    (elems elems' : List Notif) : p.lastAbout key typ (elems ++ elems') =
      (p.lastAbout key typ elems').or (p.lastAbout key typ elems) := by
  unfold UveStreamPart.lastAbout
  rw [List.filter_append, List.getLast?_append]

theorem UveStreamPart.lastAbout_singleton (p : UveStreamPart J) (key typ : String) (elem : Notif) :
    p.lastAbout key typ [elem] = if p.about key typ elem then some elem else none := by
  cases habout : p.about key typ elem <;> simp [UveStreamPart.lastAbout, habout]

theorem UveStreamPart.not_about (p : UveStreamPart J) {key typ : String} {elems : List Notif}
    (hnone : p.lastAbout key typ elems = none) :
    ∀ elem ∈ elems, p.about key typ elem = false := by
  intro elem helem
  unfold UveStreamPart.lastAbout at hnone
  rw [List.getLast?_eq_none_iff, List.filter_eq_nil_iff] at hnone
  exact Bool.eq_false_of_not_eq_true (hnone elem helem)

/-- Steps that leave an accumulator alone. -/
theorem foldl_eq_self {σ ρ : Type} {f : σ → ρ → σ} {x : σ} {l : List ρ}
    (h : ∀ a ∈ l, f x a = x) : l.foldl f x = x := by
  induction l with
  | nil => rfl
  | cons a l ih =>
    rw [List.foldl_cons, h a List.mem_cons_self]
    exact ih fun a' ha' => h a' (List.mem_cons_of_mem a ha')

section Rows

variable (p : UveStreamPart J) (c : AggConf α) (key typ : String)

theorem rowEffect_none (row : OutputRow α)
    (hrow : p.about key typ ⟨row.key, row.typ⟩ = false) : rowEffect c key typ none row = none := by
  unfold rowEffect
  split
  · split <;> rfl
  · rename_i t ht
    rw [if_neg]
    rintro ⟨rfl, rfl⟩
    simp [UveStreamPart.about, ht] at hrow

/-- Rows of which the last about a struct deletes the UVE leave nothing of it. -/
theorem foldl_rowEffect_gone (old : Option String) (rows : List (OutputRow α)) {elem : Notif}
    (hlast : p.lastAbout key typ (pubList rows) = some elem) (hgone : elem.typ = none) :
    rows.foldl (rowEffect c key typ) old = none := by
  induction rows using List.reverseRecOn with
  | nil => cases hlast
  | append_singleton rows row ih =>
    rw [pubList, List.map_append, p.lastAbout_append, List.map_singleton, p.lastAbout_singleton] at hlast
    rw [List.foldl_append, List.foldl_cons, List.foldl_nil]
    cases habout : p.about key typ ⟨row.key, row.typ⟩ with
    | true =>
      rw [if_pos habout, Option.some_or] at hlast
      have htyp : row.typ = none := by
        rw [← Option.some.inj hlast] at hgone
        exact hgone
      simp only [UveStreamPart.about, Bool.and_eq_true, decide_eq_true_eq] at habout
      rw [rowEffect, htyp]
      exact if_pos habout.1.symm
    | false =>
      rw [if_neg (by simp [habout]), Option.none_or] at hlast
      rw [ih hlast]
      exact rowEffect_none p c key typ row habout

/-- What is not stored stays so under rows that publish nothing about it. -/
theorem foldl_rowEffect_none (rows : List (OutputRow α))
    (hnone : p.lastAbout key typ (pubList rows) = none) :
    rows.foldl (rowEffect c key typ) none = none := by
  refine foldl_eq_self fun row hrow => ?_
  exact rowEffect_none p c key typ row (p.not_about hnone _ (List.mem_map_of_mem hrow))

/-- Rows that publish nothing about a struct and do not delete its UVE leave it. -/
theorem foldl_rowEffect_same (old : Option String) (rows : List (OutputRow α))
    (hnone : p.lastAbout key typ (pubList rows) = none)
    (hkept : ∀ row ∈ rows, row.typ = none → row.key ≠ key) :
    rows.foldl (rowEffect c key typ) old = old := by
  refine foldl_eq_self fun row hrow => ?_
  have habout : p.about key typ ⟨row.key, row.typ⟩ = false :=
    p.not_about hnone _ (List.mem_map_of_mem hrow)
  unfold rowEffect
  split
  · rename_i ht
    exact if_neg (hkept row hrow ht).symm
  · rename_i t ht
    rw [if_neg]
    rintro ⟨rfl, rfl⟩
    simp [UveStreamPart.about, ht] at habout

variable {p c key typ} {redish : Redis} (hacq : AcqCurrent c redish) {rows : List (OutputRow α)}
include hacq

theorem not_stored_send_of_gone {elem : Notif}
    (hlast : p.lastAbout key typ (pubList rows) = some elem) (hgone : elem.typ = none) :
    ¬ Stored c (send_agg_uve c redish rows) key typ := by
  unfold Stored
  rw [(send_agg_uve_current c hacq rows).2, foldl_rowEffect_gone p c key typ _ rows hlast hgone]
  exact Bool.false_ne_true

theorem not_stored_send (hnone : p.lastAbout key typ (pubList rows) = none)
    (hnot : ¬ Stored c redish key typ) : ¬ Stored c (send_agg_uve c redish rows) key typ := by
  unfold Stored at hnot ⊢
  rw [Option.not_isSome_iff_eq_none] at hnot
  rw [(send_agg_uve_current c hacq rows).2, hnot, foldl_rowEffect_none p c key typ rows hnone]
  exact Bool.false_ne_true

/-- Rows that publish nothing about a struct which passes leave it stored, or not. -/
theorem stored_send_iff (hpasses : p.Passes key typ)
    (hnone : p.lastAbout key typ (pubList rows) = none)
    (hannounced : p._cfilter ≠ [] → ∀ row ∈ rows, row.typ = none →
      ∀ typ, p.Passes row.key typ → Stored c redish row.key typ →
        ∃ row' ∈ rows, row'.key = row.key ∧ row'.typ = some typ) :
    Stored c (send_agg_uve c redish rows) key typ ↔ Stored c redish key typ := by
  refine ⟨fun hafter => ?_, fun hbefore => ?_⟩
  · by_contra hnot
    exact not_stored_send hacq hnone hnot hafter
  · have habout : ∀ row ∈ rows, p.about key typ ⟨row.key, row.typ⟩ = false :=
      fun row hrow => p.not_about hnone _ (List.mem_map_of_mem hrow)
    have hkept : ∀ row ∈ rows, row.typ = none → row.key ≠ key := by
      rintro row hrow htyp rfl
      have hnot := habout row hrow
      by_cases hfilter : p._cfilter = []
      · simp [UveStreamPart.about, htyp, hfilter] at hnot
      · obtain ⟨row', hrow', hkey, htyp'⟩ := hannounced hfilter row hrow htyp typ hpasses hbefore
        have hnot' := habout row' hrow'
        simp [UveStreamPart.about, hkey, htyp'] at hnot'
    unfold Stored at hbefore ⊢
    rw [(send_agg_uve_current c hacq rows).2, foldl_rowEffect_same p c key typ _ rows hnone hkept]
    exact hbefore

end Rows

-- ---------------------------------------------------------------------------
-- What the stream reports
-- ---------------------------------------------------------------------------

theorem filterM_eq_filter {β : Type} (f : β → Option Bool) (l : List β)
    (h : ∀ b ∈ l, (f b).isSome = true) : l.filterM f = some (l.filter fun b => f b = some true) := by
  have haux : ∀ (l acc : List β), (∀ b ∈ l, (f b).isSome = true) →
      l.filterAuxM f acc = some ((l.filter fun b => f b = some true).reverse ++ acc) := by
    intro l
    induction l with
    | nil => exact fun acc _ => rfl
    | cons b l ih =>
      intro acc h
      obtain ⟨pass, hpass⟩ := Option.isSome_iff_exists.mp (h b List.mem_cons_self)
      rw [List.filterAuxM, hpass]
      have hrest := fun acc => ih acc fun b' hb' => h b' (List.mem_cons_of_mem b hb')
      cases pass <;> simp [hrest, hpass]
  rw [List.filterM, haux l [] h]
  simp

theorem reported_append (calls calls' : List (StreamCall J)) (key typ : String) :
    reported (calls ++ calls') key typ =
      calls'.foldl (callEffect key typ) (reported calls key typ) :=
  List.foldl_append

namespace UveStreamPart

variable (p : UveStreamPart J)

/-- What is reported for an element, with its own value. -/
def callOf (lredis : Redis) (elem : Notif) : StreamCall J :=
  ⟨elem.key, elem.typ,
    elem.typ.bind fun typ => (p.parseValue (lredis.hget (p.agPartValues elem.key) typ)).getD none⟩

/-- The values of the aggregate are JSON, and not null. -/
def Parses (lredis : Redis) : Prop :=
  ∀ key, ∀ e ∈ lredis.hashes (p.agPartValues key), ∃ j, p.lib.loads e.2 = some (some j)

variable {p} {lredis : Redis} (hparses : p.Parses lredis)
include hparses

theorem parseValue_hget (key typ : String) :
    ∃ vdata, p.parseValue (lredis.hget (p.agPartValues key) typ) = some vdata ∧
      vdata.isSome = (lredis.hget (p.agPartValues key) typ).isSome := by
  cases hget : lredis.hget (p.agPartValues key) typ with
  | none => exact ⟨none, rfl, rfl⟩
  | some vjson =>
    have hmem : (typ, vjson) ∈ lredis.hashes (p.agPartValues key) := by
      obtain ⟨l₁, l₂, hl, -⟩ := List.lookup_eq_some_iff.mp hget
      rw [hl]
      simp
    obtain ⟨j, hj⟩ := hparses key _ hmem
    exact ⟨some j, hj, rfl⟩

variable (hcontent : p._content = true) (htoken : p._token = none)
include hcontent htoken

/-- Without a token nothing is denied, so that each element gets its own answer. -/
theorem foldlM_processElem (lelems post pre : List Notif) (hsplit : lelems = pre ++ post)
    (s : Stream J) :
    ∃ s', (post.foldlM (p.processElem (lelems.map (p.readElem lredis))) (s, pre.length)).map Prod.fst =
        .ok s' ∧ s'.calls = s.calls ++ post.map (p.callOf lredis) := by
  induction post generalizing pre s with
  | nil => exact ⟨s, rfl, (List.append_nil _).symm⟩
  | cons elem post ih =>
    have hnext : lelems = (pre ++ [elem]) ++ post := by
      rw [hsplit, List.append_assoc]
      rfl
    have hlength : pre.length + 1 = (pre ++ [elem]).length := by simp
    have hstep : ∃ s₁, p.processElem (lelems.map (p.readElem lredis)) (s, pre.length) elem =
        .ok (s₁, (pre ++ [elem]).length) ∧ s₁.calls = s.calls ++ [p.callOf lredis elem] := by
      obtain ⟨key, typ⟩ := elem
      cases typ with
      | none => exact ⟨callback s key none none, by rw [processElem, hlength], rfl⟩
      | some typ =>
        have hread : (lelems.map (p.readElem lredis))[pre.length]? =
            some (.value (lredis.hget (p.agPartValues key) typ)) := by
          rw [hsplit, List.map_append, List.getElem?_append_right (by simp)]
          simp [readElem]
        obtain ⟨vdata, hvdata, -⟩ := parseValue_hget hparses key typ
        refine ⟨callback ⟨s._uvecache.learn key typ (lredis.hget (p.agPartValues key) typ), s.calls⟩
          key (some typ) vdata, ?_, ?_⟩
        · simp only [processElem, hcontent, if_true, processStruct, hread, hvdata, htoken,
            is_uve_read_permitted, hlength]
        · simp [callback, callOf, hvdata]
    obtain ⟨s₁, hs₁, hcalls₁⟩ := hstep
    obtain ⟨s', hs', hcalls⟩ := ih (pre ++ [elem]) hnext s₁
    refine ⟨s', ?_, ?_⟩
    · rw [List.foldlM_cons, hs₁]
      exact hs'
    · rw [hcalls, hcalls₁, List.append_assoc]
      rfl

/-- A message is processed, and the elements that pass are reported in turn. -/
theorem processBatch_calls {elems : List Notif}
    (hkeyed : ∀ elem ∈ elems, (splitKey elem.key).isSome = true) (s : Stream J) :
    ∃ s', p.processBatch lredis elems s = .ok s' ∧
      s'.calls = s.calls ++
        (elems.filter fun elem => p.passes elem = some true).map (p.callOf lredis) := by
  have hfilter := filterM_eq_filter p.passes elems fun elem helem => by
    rw [passes, keyPasses, Option.isSome_map, Option.isSome_map]
    exact hkeyed elem helem
  rw [processBatch, hfilter]
  exact foldlM_processElem hparses hcontent htoken _ _ [] rfl s

end UveStreamPart

namespace UveStreamPart

section Batch

variable {p : UveStreamPart J} {c : AggConf α} {lredis : Redis}

/-- What passes and is not about a struct that passes says nothing of it. -/
theorem callEffect_of_not_about {key typ : String} {elem : Notif}
    (hpasses : p.passes elem = some true) (habout : p.about key typ elem = false) (b : Bool) :
    callEffect key typ b (p.callOf lredis elem) = b := by
  obtain ⟨ekey, etyp⟩ := elem
  have htyp : p.typePasses etyp = true := by
    obtain ⟨_, -, hb⟩ := Option.map_eq_some_iff.mp hpasses
    exact (Bool.and_eq_true _ _ ▸ hb).2
  unfold callEffect callOf
  split
  · rename_i hkey
    cases etyp with
    | none =>
      -- It can pass only without a filter on types.
      have hempty : p._cfilter.isEmpty = true := by simpa [typePasses] using htyp
      simp_all [about]
    | some t =>
      have hne : t ≠ typ := by
        rintro rfl
        simp_all [about]
      exact if_neg hne
  · rfl

/-- The last element about a struct that passes decides what a message says of it. -/
theorem foldl_callEffect (hparses : p.Parses lredis) {key typ : String}
    (hpasses : p.Passes key typ) (elems : List Notif) (b : Bool) :
    ((elems.filter fun elem => p.passes elem = some true).map (p.callOf lredis)).foldl
        (callEffect key typ) b =
      match p.lastAbout key typ elems with
      | none => b
      | some elem => elem.typ.isSome && (lredis.hget (p.agPartValues key) typ).isSome := by
  induction elems using List.reverseRecOn with
  | nil => rfl
  | append_singleton elems elem ih =>
    rw [p.lastAbout_append, p.lastAbout_singleton, List.filter_append, List.map_append,
      List.foldl_append]
    cases habout : p.about key typ elem with
    | true =>
      obtain ⟨ekey, etyp⟩ := elem
      simp only [about, Bool.and_eq_true, Bool.or_eq_true, decide_eq_true_eq] at habout
      obtain ⟨rfl, htyp⟩ := habout
      rcases htyp with rfl | ⟨rfl, hempty⟩
      · obtain ⟨vdata, hvdata, hsome⟩ := parseValue_hget hparses ekey typ
        have hpass : p.passes ⟨ekey, some typ⟩ = some true := by
          rw [passes, hpasses.1, hpasses.2]
          rfl
        simp [hpass, callEffect, callOf, hvdata, hsome]
      · have hpass : p.passes ⟨ekey, none⟩ = some true := by
          rw [passes, hpasses.1, typePasses, hempty]
          rfl
        simp [hpass, callEffect, callOf]
    | false =>
      rw [if_neg Bool.false_ne_true, Option.none_or, ← ih]
      by_cases hpass : p.passes elem = some true
      · rw [List.filter_cons_of_pos (by simpa using hpass)]
        exact callEffect_of_not_about hpass habout _
      · rw [List.filter_cons_of_neg (by simpa using hpass)]
        rfl

/-- A message says nothing of a struct that does not pass. -/
theorem foldl_callEffect_of_not_passes {key typ : String} (hnot : ¬ p.Passes key typ)
    (elems : List Notif) :
    ((elems.filter fun elem => p.passes elem = some true).map (p.callOf lredis)).foldl
      (callEffect key typ) false = false := by
  induction elems with
  | nil => rfl
  | cons elem elems ih =>
    rw [List.filter_cons]
    split
    · rename_i hpass
      obtain ⟨ekey, etyp⟩ := elem
      have heffect : callEffect key typ false (p.callOf lredis ⟨ekey, etyp⟩) = false := by
        unfold callEffect callOf
        split
        · rename_i hkey
          cases etyp with
          | none => rfl
          | some t =>
            refine if_neg ?_
            rintro rfl
            obtain ⟨b, hb, hboth⟩ := Option.map_eq_some_iff.mp (of_decide_eq_true hpass)
            rw [Bool.and_eq_true] at hboth
            exact hnot ⟨hkey ▸ hboth.1 ▸ hb, hboth.2⟩
        · rfl
      rw [List.map_cons, List.foldl_cons, heffect]
      exact ih
    · exact ih

end Batch

-- ---------------------------------------------------------------------------
-- What is reported at the start
-- ---------------------------------------------------------------------------

/-- A loop that never fails and adds calls for each element. -/
theorem foldlM_appends {β : Type} {f : Stream J → β → Except (Stream J) (Stream J)}
    {g : β → List (StreamCall J)} {l : List β}
    (hstep : ∀ b ∈ l, ∀ s, ∃ s', f s b = .ok s' ∧ s'.calls = s.calls ++ g b) (s : Stream J) :
    ∃ s', l.foldlM f s = .ok s' ∧ s'.calls = s.calls ++ l.flatMap g := by
  induction l generalizing s with
  | nil => exact ⟨s, rfl, (List.append_nil _).symm⟩
  | cons b l ih =>
    obtain ⟨s₁, hs₁, hcalls₁⟩ := hstep b List.mem_cons_self s
    obtain ⟨s', hs', hcalls⟩ := ih (fun b' hb' => hstep b' (List.mem_cons_of_mem b hb')) s₁
    refine ⟨s', ?_, ?_⟩
    · rw [List.foldlM_cons, hs₁]
      exact hs'
    · rw [hcalls, hcalls₁, List.flatMap_cons, List.append_assoc]

variable (p : UveStreamPart J)

/-- What is reported of a UVE that is read whole. -/
def syncCalls (lredis : Redis) (key : String) : List (StreamCall J) :=
  (lredis.hashes (p.agPartValues key)).flatMap fun e =>
    if p.typePasses (some e.1) then [⟨key, some e.1, (p.lib.loads e.2).getD none⟩] else []

variable {p} {lredis : Redis} (hparses : p.Parses lredis)
include hparses

theorem syncpart_calls (hcontent : p._content = true) (htoken : p._token = none)
    {keys : List String} (hkeyed : ∀ key ∈ keys, (splitKey key).isSome = true) (s : Stream J) :
    ∃ s', p.syncpart keys lredis s = .ok s' ∧
      s'.calls = s.calls ++
        (keys.filter fun key => p.keyPasses key = some true).flatMap (p.syncCalls lredis) := by
  have hfilter := filterM_eq_filter p.keyPasses keys fun key hkey => by
    rw [keyPasses, Option.isSome_map]
    exact hkeyed key hkey
  rw [syncpart, hfilter]
  simp only [List.foldlM_map]
  refine foldlM_appends (fun key hkey s => ?_) s
  simp only [syncUve, hcontent, if_true, htoken, is_uve_read_permitted]
  refine foldlM_appends (fun e he s => ?_) s
  obtain ⟨j, hj⟩ := hparses key e he
  unfold syncStruct
  simp only [hj]
  split
  · exact ⟨_, rfl, rfl⟩
  · exact ⟨_, rfl, (List.append_nil _).symm⟩

omit hparses in
/-- Calls that withdraw nothing report just what they name. -/
theorem reported_iff_mem {calls : List (StreamCall J)}
    (hcalls : ∀ call ∈ calls, call.typ.isSome = true ∧ call.value.isSome = true)
    (key typ : String) :
    reported calls key typ = true ↔ ∃ call ∈ calls, call.key = key ∧ call.typ = some typ := by
  induction calls using List.reverseRecOn with
  | nil => simp [reported]
  | append_singleton calls call ih =>
    have hrest := ih fun call' hcall' => hcalls call' (List.mem_append_left _ hcall')
    obtain ⟨htyp, hvalue⟩ := hcalls call (List.mem_append_right _ (List.mem_singleton_self call))
    obtain ⟨t, ht⟩ := Option.isSome_iff_exists.mp htyp
    rw [reported_append, List.foldl_cons, List.foldl_nil, callEffect, ht]
    by_cases hkey : call.key = key
    · by_cases htt : t = typ
      · simp [hkey, htt, hvalue, ht]
      · simp [hkey, htt, hrest, ht]
    · simp [hkey, hrest]

/-- At the start the stored structs of the listed keys are reported that pass. -/
theorem reported_syncCalls (keys : List String) (key typ : String) :
    reported ((keys.filter fun key => p.keyPasses key = some true).flatMap (p.syncCalls lredis))
        key typ = true ↔
      key ∈ keys ∧ p.Passes key typ ∧
        (lredis.hget (p.agPartValues key) typ).isSome = true := by
  have hmem : ∀ call, call ∈ (keys.filter fun key => p.keyPasses key = some true).flatMap
      (p.syncCalls lredis) ↔ ∃ k ∈ keys, p.keyPasses k = some true ∧
        ∃ e ∈ lredis.hashes (p.agPartValues k), p.typePasses (some e.1) = true ∧
          call = ⟨k, some e.1, (p.lib.loads e.2).getD none⟩ := by
    intro call
    simp [syncCalls, List.mem_flatMap, and_assoc]
  rw [reported_iff_mem]
  · constructor
    · rintro ⟨call, hcall, rfl, htyp⟩
      obtain ⟨k, hk, hpass, e, he, htypes, rfl⟩ := (hmem call).mp hcall
      obtain rfl := Option.some.inj htyp
      refine ⟨hk, ⟨hpass, htypes⟩, ?_⟩
      rw [Redis.hget, List.lookup_isSome_iff]
      exact ⟨e, he, beq_self_eq_true _⟩
    · rintro ⟨hk, ⟨hpass, htypes⟩, hstored⟩
      obtain ⟨vjson, hvjson⟩ := Option.isSome_iff_exists.mp hstored
      obtain ⟨l₁, l₂, hl, -⟩ := List.lookup_eq_some_iff.mp hvjson
      refine ⟨⟨key, some typ, (p.lib.loads vjson).getD none⟩, (hmem _).mpr ?_, rfl, rfl⟩
      exact ⟨key, hk, hpass, (typ, vjson), by rw [hl]; simp, htypes, rfl⟩
  · intro call hcall
    obtain ⟨k, -, -, e, he, -, rfl⟩ := (hmem call).mp hcall
    obtain ⟨j, hj⟩ := hparses k e he
    exact ⟨rfl, by rw [hj]; rfl⟩

end UveStreamPart

-- ---------------------------------------------------------------------------
-- Runs
-- ---------------------------------------------------------------------------

/-- A stream with contents and without a token, of the partition that is written.
`json.loads` reads back what `json.dumps` wrote, and a struct is not null. -/
structure Follows (p : UveStreamPart J) (c : AggConf α) : Prop where
  content : p._content = true
  token : p._token = none
  instance_id : p.instance_id = c._instance_id
  part : p._partno = c.part
  dumps : ∀ v, ∃ j, p.lib.loads (c.dumps v) = some (some j)

/-- What holds in every state. For a struct that passes, the last element about it that
waits in the queue decides; without one, what is reported is what is stored. -/
structure FollowInv (p : UveStreamPart J) (c : AggConf α) (s : FollowState J) : Prop where
  coherent : AggCoherent p c s.lredis
  keyed : ∀ elems ∈ s.queue, ∀ elem ∈ elems, (splitKey elem.key).isSome = true
  listedKeyed : ∀ keys, s.phase = .listed keys → ∀ key ∈ keys, (splitKey key).isSome = true
  idle : s.phase = .idle → s.queue = []
  quiet : s.phase ≠ .running → s.stream.calls = []
  only : ∀ key typ, ¬ p.Passes key typ → reported s.stream.calls key typ = false
  gone : ∀ key typ elem, p.lastAbout key typ s.queue.flatten = some elem → elem.typ = none →
    ¬ Stored c s.lredis key typ
  listed : ∀ keys, s.phase = .listed keys → ∀ key typ, p.lastAbout key typ s.queue.flatten = none →
    key ∉ keys → ¬ Stored c s.lredis key typ
  running : s.phase = .running → ∀ key typ, p.Passes key typ →
    p.lastAbout key typ s.queue.flatten = none →
    (reported s.stream.calls key typ = true ↔ Stored c s.lredis key typ)

section Runs

variable {p : UveStreamPart J} {c : AggConf α}

theorem Follows.agPartValues_eq (hf : Follows p c) (key : String) :
    p.agPartValues key = c.agPartValues key := by
  unfold UveStreamPart.agPartValues AggConf.agPartValues
  rw [hf.instance_id, hf.part]

theorem Follows.agPartKeys_eq (hf : Follows p c) : p.agPartKeys = c.agPartKeys := by
  unfold UveStreamPart.agPartKeys AggConf.agPartKeys
  rw [hf.instance_id, hf.part]

theorem Follows.parses (hf : Follows p c) {redish : Redis} (h : AggCoherent p c redish) :
    p.Parses redish := by
  intro key e he
  rw [hf.agPartValues_eq] at he
  exact h.parses key e he

theorem AggCoherent.indexed_of_stored {redish : Redis} (h : AggCoherent p c redish) {key typ : String}
    (hstored : Stored c redish key typ) : key ∈ redish.sets c.agPartKeys := by
  refine h.indexed key fun hempty => ?_
  rw [Stored, Redis.hget, hempty] at hstored
  cases hstored

theorem followInv_init {redish : Redis} (h : AggCoherent p c redish) :
    FollowInv p c (followSystem p c redish).init where
  coherent := h
  keyed _ helems := absurd helems List.not_mem_nil
  listedKeyed keys hphase := by cases hphase
  idle _ := rfl
  quiet _ := rfl
  only _ _ _ := rfl
  gone key typ elem hlast := by cases hlast
  listed keys hphase := by cases hphase
  running hphase := by cases hphase

variable (hf : Follows p c) {s s' : FollowState J} (h : FollowInv p c s)
include hf h

/-- Rows that are sent before the stream subscribes. -/
theorem followInv_sendIdle {rows : List (OutputRow α)} (hannounced : Announced p c s (.send rows))
    (hphase : s.phase = .idle) :
    FollowInv p c { s with lredis := send_agg_uve c s.lredis rows } where
  coherent := coherent_send_agg_uve hf.dumps h.coherent hannounced.1
  keyed := h.keyed
  listedKeyed := h.listedKeyed
  idle := h.idle
  quiet := h.quiet
  only := h.only
  gone key typ elem hlast := by
    simp only [h.idle hphase] at hlast
    cases hlast
  listed keys hlisted := by
    rw [hphase] at hlisted
    cases hlisted
  running hrunning := by
    rw [hphase] at hrunning
    cases hrunning

omit hf in
theorem followInv_subscribe (hphase : s.phase = .idle) :
    FollowInv p c { s with phase := .subscribed } where
  coherent := h.coherent
  keyed := h.keyed
  listedKeyed _ hne := by cases hne
  idle hne := by cases hne
  quiet _ := h.quiet (by rw [hphase]; intro hne; cases hne)
  only := h.only
  gone := h.gone
  listed _ hne := by cases hne
  running hne := by cases hne

/-- Rows are sent to a stream that is subscribed. -/
theorem followInv_send {rows : List (OutputRow α)} (hannounced : Announced p c s (.send rows))
    (hphase : s.phase ≠ .idle) :
    FollowInv p c { s with lredis := send_agg_uve c s.lredis rows, queue := s.queue ++ [pubList rows] } := by
  have hflatten : (s.queue ++ [pubList rows]).flatten = s.queue.flatten ++ pubList rows := by simp
  have hacq := h.coherent.acq
  refine ⟨coherent_send_agg_uve hf.dumps h.coherent hannounced.1, ?_, h.listedKeyed,
    fun hidle => absurd hidle hphase, h.quiet, h.only, ?_, ?_, ?_⟩
  · intro elems helems elem helem
    rcases List.mem_append.mp helems with hold | hnew
    · exact h.keyed elems hold elem helem
    · rw [List.mem_singleton.mp hnew] at helem
      obtain ⟨row, hrow, rfl⟩ := List.mem_map.mp helem
      exact hannounced.1 row hrow
  · intro key typ elem hlast hgone
    rw [hflatten, p.lastAbout_append] at hlast
    cases hnew : p.lastAbout key typ (pubList rows) with
    | none =>
      rw [hnew, Option.none_or] at hlast
      exact not_stored_send hacq hnew (h.gone key typ elem hlast hgone)
    | some elem' =>
      rw [hnew, Option.some_or] at hlast
      obtain rfl := Option.some.inj hlast
      exact not_stored_send_of_gone hacq hnew hgone
  · intro keys hlisted key typ hlast hkey
    rw [hflatten, p.lastAbout_append, Option.or_eq_none_iff] at hlast
    exact not_stored_send hacq hlast.1 (h.listed keys hlisted key typ hlast.2 hkey)
  · intro hrunning key typ hpasses hlast
    rw [hflatten, p.lastAbout_append, Option.or_eq_none_iff] at hlast
    rw [stored_send_iff hacq hpasses hlast.1 (hannounced.2 hrunning)]
    exact h.running hrunning key typ hpasses hlast.2

theorem followInv_smembers (hphase : s.phase = .subscribed) :
    FollowInv p c { s with phase := .listed (s.lredis.smembers p.agPartKeys) } where
  coherent := h.coherent
  keyed := h.keyed
  listedKeyed keys hlisted key hkey := by
    obtain rfl := Phase.listed.inj hlisted
    rw [Redis.smembers, hf.agPartKeys_eq] at hkey
    exact h.coherent.keyed key hkey
  idle hne := by cases hne
  quiet _ := h.quiet (by rw [hphase]; intro hne; cases hne)
  only := h.only
  gone := h.gone
  listed keys hlisted key typ _ hkey hstored := by
    obtain rfl := Phase.listed.inj hlisted
    rw [Redis.smembers, hf.agPartKeys_eq] at hkey
    exact hkey (h.coherent.indexed_of_stored hstored)
  running hne := by cases hne

/-- The listed UVEs are read; what is stored of others is announced. -/
theorem followInv_sync {keys : List String} (hphase : s.phase = .listed keys) :
    ∃ stream, p.syncpart keys s.lredis s.stream = .ok stream ∧
      FollowInv p c { s with phase := .running, stream } := by
  have hparses := hf.parses h.coherent
  obtain ⟨stream, hsync, hcalls⟩ := UveStreamPart.syncpart_calls hparses hf.content hf.token
    (h.listedKeyed keys hphase) s.stream
  rw [h.quiet (by rw [hphase]; intro hne; cases hne), List.nil_append] at hcalls
  refine ⟨stream, hsync, ?_⟩
  exact {
    coherent := h.coherent
    keyed := h.keyed
    listedKeyed := fun _ hne => by cases hne
    idle := fun hne => by cases hne
    quiet := fun hne => absurd rfl hne
    only := fun key typ hnot => by
      rw [← Bool.not_eq_true, hcalls, UveStreamPart.reported_syncCalls hparses]
      exact fun hyes => hnot hyes.2.1
    gone := h.gone
    listed := fun _ hne => by cases hne
    running := fun _ key typ hpasses hlast => by
      rw [hcalls, UveStreamPart.reported_syncCalls hparses, hf.agPartValues_eq]
      refine ⟨fun hyes => hyes.2.2, fun hstored => ⟨?_, hpasses, hstored⟩⟩
      by_contra hkey
      exact h.listed keys hphase key typ hlast hkey hstored }

/-- A message is processed with the values of now. -/
theorem followInv_process {elems : List Notif} {queue : List (List Notif)}
    (hphase : s.phase = .running) (hqueue : s.queue = elems :: queue) :
    ∃ stream, p.processBatch s.lredis elems s.stream = .ok stream ∧
      FollowInv p c { s with queue, stream } := by
  have hparses := hf.parses h.coherent
  have hflatten : s.queue.flatten = elems ++ queue.flatten := by rw [hqueue, List.flatten_cons]
  obtain ⟨stream, hprocess, hcalls⟩ := UveStreamPart.processBatch_calls hparses hf.content hf.token
    (h.keyed elems (by rw [hqueue]; exact List.mem_cons_self)) s.stream
  refine ⟨stream, hprocess, h.coherent, fun elems' helems' => h.keyed elems' ?_, h.listedKeyed,
    fun hidle => ?_, fun hne => absurd hphase hne, fun key typ hnot => ?_, fun key typ elem hlast => ?_,
    fun keys hlisted => ?_, fun _ key typ hpasses hlast => ?_⟩
  · rw [hqueue]
    exact List.mem_cons_of_mem elems helems'
  · rw [hphase] at hidle
    cases hidle
  · rw [hcalls, reported_append, h.only key typ hnot]
    exact UveStreamPart.foldl_callEffect_of_not_passes hnot elems
  · refine h.gone key typ elem ?_
    rw [hflatten, p.lastAbout_append, hlast, Option.some_or]
  · rw [hphase] at hlisted
    cases hlisted
  · rw [hcalls, reported_append, UveStreamPart.foldl_callEffect hparses hpasses]
    have hall : p.lastAbout key typ s.queue.flatten = p.lastAbout key typ elems := by
      rw [hflatten, p.lastAbout_append, hlast, Option.none_or]
    cases helems : p.lastAbout key typ elems with
    | none => exact h.running hphase key typ hpasses (hall.trans helems)
    | some elem =>
      rw [helems] at hall
      cases htyp : elem.typ with
      | none =>
        have hnot := h.gone key typ elem hall htyp
        simp [htyp, hnot]
      | some t => simp [htyp, Stored, hf.agPartValues_eq]

theorem followInv_step (a : FollowEvent α) (hok : Announced p c s a)
    (hstep : followStep p c s a = some s') : FollowInv p c s' := by
  cases a with
  | send rows =>
    obtain rfl := Option.some.inj hstep
    by_cases hphase : s.phase = .idle
    · rw [if_pos hphase]
      exact followInv_sendIdle hf h hok hphase
    · rw [if_neg hphase]
      exact followInv_send hf h hok hphase
  | subscribe =>
    rw [followStep] at hstep
    split at hstep
    · rename_i hphase
      obtain rfl := Option.some.inj hstep
      exact followInv_subscribe h hphase
    · cases hstep
  | smembers =>
    rw [followStep] at hstep
    split at hstep
    · rename_i hphase
      obtain rfl := Option.some.inj hstep
      exact followInv_smembers hf h hphase
    · cases hstep
  | sync =>
    rw [followStep] at hstep
    split at hstep
    · rename_i keys hphase
      obtain ⟨stream, hsync, hinv⟩ := followInv_sync hf h hphase
      rw [hsync] at hstep
      obtain rfl := Option.some.inj hstep
      exact hinv
    · cases hstep
  | process =>
    rw [followStep] at hstep
    split at hstep
    · rename_i elems queue hphase hqueue
      obtain ⟨stream, hprocess, hinv⟩ := followInv_process hf h hphase hqueue
      rw [hprocess] at hstep
      obtain rfl := Option.some.inj hstep
      exact hinv
    · cases hstep

end Runs

/-- Once the stream runs and all messages are processed, the structs that are reported
are those of the aggregate that pass the filters; and no step of the stream fails. -/
theorem stream_converges {p : UveStreamPart J} {c : AggConf α} (hf : Follows p c) {redish : Redis}
    (hredish : AggCoherent p c redish) {s : FollowState J}
    (h : (followSystem p c redish).ReachableVia (Announced p c) s) :
    (s.phase = .running → s.queue = [] → ∀ key typ,
      reported s.stream.calls key typ = true ↔ Stored c s.lredis key typ ∧ p.Passes key typ) ∧
    (∀ keys, s.phase = .listed keys → ∃ s', followStep p c s .sync = some s') ∧
    ∀ elems queue, s.phase = .running → s.queue = elems :: queue →
      ∃ s', followStep p c s .process = some s' := by
  have hinv : FollowInv p c s := h.invariant (followInv_init hredish)
    fun s a s' hinv hok hstep => followInv_step hf hinv a hok hstep
  refine ⟨fun hphase hqueue key typ => ?_, fun keys hphase => ?_, fun elems queue hphase hqueue => ?_⟩
  · by_cases hpasses : p.Passes key typ
    · rw [hinv.running hphase key typ hpasses (by rw [hqueue]; rfl)]
      exact ⟨fun hstored => ⟨hstored, hpasses⟩, And.left⟩
    · rw [hinv.only key typ hpasses]
      exact ⟨fun hfalse => absurd hfalse Bool.false_ne_true, fun hboth => absurd hboth.2 hpasses⟩
  · obtain ⟨stream, hsync, -⟩ := followInv_sync hf hinv hphase
    exact ⟨_, by simp only [followStep, hphase, hsync]; rfl⟩
  · obtain ⟨stream, hprocess, -⟩ := followInv_process hf hinv hphase hqueue
    exact ⟨_, by simp only [followStep, hphase, hqueue, hprocess]; rfl⟩

section Sample

/-- Structs that are a flag. -/
def flagConf : AggConf Bool :=
  ⟨"alarm-gen", 0, 1000, 100, fun flag => if flag then "true" else "false"⟩

/-- A stream of structs of the type A only. -/
def flagPart : UveStreamPart Bool :=
  ⟨0, "alarm-gen", true, [], ["A"], [], none,
    { loads := fun text =>
        if text = "true" then some (some true) else if text = "false" then some (some false) else none
      emptyDict := false
      perms2 := fun _ => none
      shareinfo_from_perms2_tenant := fun _ => none }⟩

theorem flagPart_follows : Follows flagPart flagConf := by
  refine ⟨rfl, rfl, rfl, rfl, fun flag => ⟨flag, ?_⟩⟩
  cases flag <;> decide

theorem aggCoherent_empty : AggCoherent flagPart flagConf .empty :=
  ⟨fun old hold => (by cases hold), fun key hne => absurd rfl hne,
    fun key hkey => absurd hkey List.not_mem_nil, fun key e he => absurd he List.not_mem_nil⟩

/-- The stream starts, and a struct is sent. -/
def flagEvents : List (FollowEvent Bool) :=
  [.subscribe, .smembers, .sync, .send [⟨"t:k", some "A", some true⟩], .process]

def flagState (events : List (FollowEvent Bool)) : FollowState Bool :=
  ((followSystem flagPart flagConf .empty).run events).getD (followSystem flagPart flagConf .empty).init

theorem stream_converges_sample :
    reported (flagState flagEvents).stream.calls "t:k" "A" = true ↔
      Stored flagConf (flagState flagEvents).lredis "t:k" "A" ∧ flagPart.Passes "t:k" "A" := by
  refine (stream_converges flagPart_follows aggCoherent_empty ?_).1 rfl rfl "t:k" "A"
  refine System.reachableVia_of_run (show (followSystem flagPart flagConf .empty).run flagEvents = _ from rfl)
    fun a ha s s' _ => ?_
  cases a with
  | send rows =>
    have hrows : rows = [⟨"t:k", some "A", some true⟩] := by simpa [flagEvents] using ha
    rw [hrows]
    refine ⟨fun row hrow => ?_, fun _ _ row hrow htyp => ?_⟩
    · rw [List.mem_singleton.mp hrow]
      rfl
    · rw [List.mem_singleton.mp hrow] at htyp
      cases htyp
  | _ => trivial

/-- With a filter on types the deletion of a UVE does not reach the stream. -/
theorem deleted_uve_still_reported :
    ¬ ∀ (p : UveStreamPart Bool) (c : AggConf Bool) (redish : Redis) (s : FollowState Bool),
      Follows p c → AggCoherent p c redish → (followSystem p c redish).Reachable s →
      s.phase = .running → s.queue = [] → ∀ key typ,
        reported s.stream.calls key typ = true ↔ Stored c s.lredis key typ ∧ p.Passes key typ := by
  intro hclaim
  have hrun : (followSystem flagPart flagConf .empty).run
      (flagEvents ++ [.send [⟨"t:k", none, none⟩], .process]) =
        some (flagState (flagEvents ++ [.send [⟨"t:k", none, none⟩], .process])) := rfl
  have hiff := hclaim flagPart flagConf .empty _ flagPart_follows aggCoherent_empty
    (System.reachable_of_run hrun) rfl rfl "t:k" "A"
  have hreported : reported (flagState (flagEvents ++ [.send [⟨"t:k", none, none⟩], .process])).stream.calls
      "t:k" "A" = true := rfl
  exact absurd (hiff.mp hreported).1 (by unfold Stored; decide)

end Sample

end TfAnalytics.OpServer
