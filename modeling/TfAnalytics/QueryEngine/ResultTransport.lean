import TfAnalytics.Lib.JsonText
import TfAnalytics.QueryEngine.Filters
import TfAnalytics.QueryEngine.ReplyStatus

/-!
# Query engine — the rows on their way to the API

`QueryResp` (QEOpServerProxy.cc) pushes the rows of a result to redis, in batches
`RESULT:<qid>:0`, `RESULT:<qid>:1` and so on, and reports how many batches and rows there are.
`redis_query_chunk` (opserver.py) reads batches until one is empty, deletes them, and yields the
text of the reply piece by piece. The separators are its own: whether a row is the first one is
carried from batch to batch.

* `resultLines_spec`: the batches;
* `run_commands`: what the commands leave in redis;
* `readChunks_eq`: what the reader yields;
* `survives_iff`: when the rows survive;
* `survives_queryMerge`: those that `QueryMerge` hands on do.

The counts are 32-bit numbers, printed as signed ones.
-/

namespace TfAnalytics.QueryEngine

open TfAnalytics.Lib

-- ---------------------------------------------------------------------------
-- The writer
-- ---------------------------------------------------------------------------

/-- A status text, by its numbers. -/
structure StatText where
  progress : Int
  lines : Option Int := none
  count : Option Int := none
  deriving DecidableEq

inductive RedisCommand where
  | rpush (key : String) (rows : List String)
  | rpushStat (key : String) (stat : StatText)
  | expire (key : String) (seconds : String)

def resultKey (qid : String) (rownum : Nat) : String := "RESULT:" ++ qid ++ ":" ++ toString rownum

def replyKey (qid : String) : String := "REPLY:" ++ qid

/-- The commands for one batch. -/
def lineCommands (qid : String) (rownum : Nat) (line : List String) : List RedisCommand :=
  [.rpush (resultKey qid (rownum % UINT32)) line,
    .expire (resultKey qid (rownum % UINT32)) "300",
    .rpushStat (replyKey qid) { progress := 90, lines := some (asInt (rownum % UINT32)) }]

/-- The commands of `QueryResp`; `res` are the rows in their JSON form. -/
def respCommands {ρ : Type} (m : Stage0Merge ρ) (qid : String) (res : List String) :
    List RedisCommand :=
  if m.overflow then [.rpushStat (replyKey qid) { progress := - ENOBUFS }]
  else if m.ret_code = false then [.rpushStat (replyKey qid) { progress := - EIO }]
  else
    let lines := resultLines res.length res
    (lines.zipIdx.flatMap fun p => lineCommands qid p.2 p.1) ++
      [.rpushStat (replyKey qid)
        { progress := 100, lines := some (asInt (lines.length % UINT32)),
          count := some (asInt (res.length % UINT32)) }]

/-- The lists in redis: rows and status texts. A key that is not there has no elements. -/
structure RedisLists where
  rows : String → List String
  stats : String → List StatText

namespace RedisLists

def exec (r : RedisLists) : RedisCommand → RedisLists
  | .rpush key rows => { r with rows := Function.update r.rows key (r.rows key ++ rows) }
  | .rpushStat key stat => { r with stats := Function.update r.stats key (r.stats key ++ [stat]) }
  | .expire _ _ => r

def run (r : RedisLists) (commands : List RedisCommand) : RedisLists := commands.foldl exec r

end RedisLists

-- ---------------------------------------------------------------------------
-- The reader
-- ---------------------------------------------------------------------------

/-- `redish.delete`. -/
def deleteKeys (lists : String → List String) (keys : List String) : String → List String :=
  fun key => if key ∈ keys then [] else lists key

/-- The loop over the elements of a batch: `dli` and `starter`. -/
def addElems : List String → String → Bool → String × Bool
  | [], dli, starter => (dli, starter)
  | elem :: elems, dli, starter =>
    if starter then addElems elems (dli ++ ("\n" ++ elem)) false
    else addElems elems (dli ++ (", " ++ elem)) false

/-- `redis_query_chunk` and the generator it reads from, `redis_query_chunk_iter`: what is yielded
from batch `iters` on, and the number of rows. Without fuel there is no end. The generator
deletes a batch when it is asked for the next one. -/
def readChunks (qid : String) : Nat → Nat → (String → List String) → Bool → Option (List String × Nat)
  | 0, _, _, _ => none
  | fuel + 1, iters, lists, starter =>
    let elems := lists (resultKey qid iters)
    if elems = [] then some ([], 0)
    else
      let (dli, starter) := addElems elems "" starter
      let lists := deleteKeys lists [resultKey qid iters, "0", "-1"]
      (readChunks qid fuel (iters + 1) lists starter).map fun rest =>
        ((dli ++ "\n") :: rest.1, elems.length + rest.2)

/-- All that `redis_query_chunk` yields, as one text. -/
def redis_query_chunk (qid : String) (fuel : Nat) (lists : String → List String) : Option String :=
  (readChunks qid fuel 0 lists true).map fun loop =>
    "\x7b\"value\": [" ++ String.join loop.1 ++ (if loop.2 = 0 then "\n" ++ "]\x7d" else "]\x7d")

-- ---------------------------------------------------------------------------
-- The batches
-- ---------------------------------------------------------------------------

theorem fillLine_append (rowsize : Nat) (rows : List String) :
    (fillLine rowsize rows).1 ++ (fillLine rowsize rows).2 = rows := by
  induction rows generalizing rowsize with
  | nil => rfl
  | cons row rest ih =>
    rw [fillLine]
    split
    · rw [List.cons_append, ih]
    · rfl

/-- A batch takes a row whatever its size. -/
theorem fillLine_ne_nil (row : String) (rest : List String) : (fillLine 0 (row :: rest)).1 ≠ [] := by
  rw [fillLine, if_pos (by decide)]
  exact List.cons_ne_nil _ _

/-- The batches are not empty, and together they are the rows. -/
theorem resultLines_spec (n : Nat) (rows : List String) (h : rows.length ≤ n) :
    (resultLines n rows).flatten = rows ∧ (∀ line ∈ resultLines n rows, line ≠ []) ∧
      (resultLines n rows).length ≤ rows.length := by
  induction n generalizing rows with
  | zero =>
    obtain rfl := List.eq_nil_of_length_eq_zero (Nat.le_zero.mp h)
    exact ⟨rfl, fun line hline => (nomatch hline), Nat.le_refl _⟩
  | succ n ih =>
    cases rows with
    | nil => exact ⟨rfl, fun line hline => (nomatch hline), Nat.le_refl _⟩
    | cons row rest =>
      have happend := fillLine_append 0 (row :: rest)
      have hne := fillLine_ne_nil row rest
      have hlength := congrArg List.length happend
      rw [List.length_append] at hlength
      have hpos := List.length_pos_iff.mpr hne
      obtain ⟨hflatten, hlines, hcount⟩ := ih (fillLine 0 (row :: rest)).2 (by omega)
      refine ⟨?_, ?_, ?_⟩
      · rw [resultLines, List.flatten_cons, hflatten, happend]
      · intro line hline
        rw [resultLines, List.mem_cons] at hline
        rcases hline with rfl | hline
        · exact hne
        · exact hlines line hline
      · rw [resultLines, List.length_cons]
        omega

-- ---------------------------------------------------------------------------
-- In redis
-- ---------------------------------------------------------------------------

theorem resultKey_inj {qid : String} {n n' : Nat} (h : resultKey qid n = resultKey qid n') : n = n' := by
  have htext : ("RESULT:" ++ qid ++ ":").toList ++ (toString n).toList =
      ("RESULT:" ++ qid ++ ":").toList ++ (toString n').toList := by
    rw [← String.toList_append, ← String.toList_append]
    exact congrArg String.toList h
  have hnumber := String.toList_inj.mp (List.append_cancel_left htext)
  have hvalue := congrArg decimalValue hnumber
  rwa [decimalValue_toString, decimalValue_toString] at hvalue

theorem resultKey_ne (qid : String) (n : Nat) {key : String} (hkey : key.toList.head? ≠ some 'R') :
    resultKey qid n ≠ key := by
  intro heq
  apply hkey
  rw [← heq, resultKey, String.toList_append, String.toList_append, String.toList_append]
  rfl

theorem exec_rpushStat (r : RedisLists) (key : String) (stat : StatText) :
    (r.exec (.rpushStat key stat)).stats key = r.stats key ++ [stat] :=
  Function.update_self ..

/-- The commands for some batches append each to its key. -/
theorem run_lines (qid : String) (lines : List (List String)) (k : Nat) (r : RedisLists)
    (hcount : k + lines.length ≤ UINT32) (n : Nat) :
    (r.run ((lines.zipIdx k).flatMap fun p => lineCommands qid p.2 p.1)).rows (resultKey qid n) =
      r.rows (resultKey qid n) ++ if k ≤ n then (lines[n - k]?).getD [] else [] := by
  induction lines generalizing k r with
  | nil => simp [RedisLists.run]
  | cons line rest ih =>
    rw [List.length_cons] at hcount
    have hk : k % UINT32 = k := Nat.mod_eq_of_lt (by omega)
    rw [List.zipIdx_cons, List.flatMap_cons, RedisLists.run, List.foldl_append]
    show (RedisLists.run _ _).rows _ = _
    rw [ih (k + 1) _ (by omega)]
    have hline : ((lineCommands qid k line).foldl RedisLists.exec r).rows (resultKey qid n) =
        r.rows (resultKey qid n) ++ if n = k then line else [] := by
      show Function.update r.rows (resultKey qid (k % UINT32)) _ (resultKey qid n) = _
      rw [hk]
      by_cases hn : n = k
      · subst hn
        rw [Function.update_self, if_pos rfl]
      · rw [Function.update_of_ne fun heq => hn (resultKey_inj heq), if_neg hn, List.append_nil]
    rw [hline]
    by_cases hn : n = k
    · subst hn
      rw [if_pos rfl, if_pos (Nat.le_refl n), if_neg (by omega), Nat.sub_self, List.append_nil]
      rfl
    · rw [if_neg hn, List.append_nil]
      by_cases hle : k ≤ n
      · have hindex : n - k = n - (k + 1) + 1 := by omega
        rw [if_pos hle, if_pos (by omega), hindex, List.getElem?_cons_succ]
      · rw [if_neg hle, if_neg (by omega)]

variable {ρ : Type} {m : Stage0Merge ρ}

/-- What the commands of a result leave in redis. -/
theorem run_commands (hoverflow : m.overflow = false) (hret : m.ret_code = true) (qid : String)
    (res : List String) (r : RedisLists) :
    ((resultLines res.length res).length ≤ UINT32 → ∀ n,
      (r.run (respCommands m qid res)).rows (resultKey qid n) =
        r.rows (resultKey qid n) ++ ((resultLines res.length res)[n]?).getD []) ∧
    ((r.run (respCommands m qid res)).stats (replyKey qid)).getLast? =
      some { progress := 100, lines := some (asInt ((resultLines res.length res).length % UINT32)),
             count := some (asInt (res.length % UINT32)) } := by
  have hcommands : respCommands m qid res =
      ((resultLines res.length res).zipIdx.flatMap fun p => lineCommands qid p.2 p.1) ++
        [.rpushStat (replyKey qid)
          { progress := 100, lines := some (asInt ((resultLines res.length res).length % UINT32)),
            count := some (asInt (res.length % UINT32)) }] := by
    rw [respCommands, hoverflow, hret]
    rfl
  rw [hcommands, RedisLists.run, List.foldl_append]
  refine ⟨fun hcount n => ?_, ?_⟩
  · have hlines := run_lines qid (resultLines res.length res) 0 r (by omega) n
    rw [if_pos (Nat.zero_le n), Nat.sub_zero] at hlines
    exact hlines
  · rw [List.foldl_cons, List.foldl_nil, exec_rpushStat]
    exact List.getLast?_concat

-- ---------------------------------------------------------------------------
-- The text
-- ---------------------------------------------------------------------------

/-- The pieces for the batches. -/
def pieces : Bool → List (List String) → List String
  | _, [] => []
  | starter, line :: rest =>
    ((addElems line "" starter).1 ++ "\n") :: pieces (addElems line "" starter).2 rest

/-- The reader goes through the batches. -/
theorem readChunks_eq (qid : String) (lines : List (List String)) (hlines : ∀ line ∈ lines, line ≠ [])
    (iters : Nat) (lists : String → List String) (starter : Bool)
    (hlists : ∀ n, lists (resultKey qid (iters + n)) = (lines[n]?).getD []) :
    readChunks qid (lines.length + 1) iters lists starter =
      some (pieces starter lines, lines.flatten.length) := by
  induction lines generalizing iters lists starter with
  | nil =>
    rw [readChunks, ← Nat.add_zero iters, hlists 0]
    rfl
  | cons line rest ih =>
    have hfirst : lists (resultKey qid iters) = line := hlists 0
    have hlater : ∀ n, deleteKeys lists [resultKey qid iters, "0", "-1"]
        (resultKey qid (iters + 1 + n)) = (rest[n]?).getD [] := by
      intro n
      have hnot : resultKey qid (iters + 1 + n) ∉ [resultKey qid iters, "0", "-1"] := by
        intro hmem
        simp only [List.mem_cons, List.not_mem_nil, or_false] at hmem
        rcases hmem with heq | heq | heq
        · have hsame := resultKey_inj heq
          omega
        · exact resultKey_ne qid _ (by decide) heq
        · exact resultKey_ne qid _ (by decide) heq
      have hindex : iters + 1 + n = iters + (n + 1) := by omega
      rw [deleteKeys, if_neg hnot, hindex, hlists (n + 1), List.getElem?_cons_succ]
    rw [List.length_cons, readChunks]
    simp only [hfirst, if_neg (hlines line List.mem_cons_self)]
    rw [ih (fun l hl => hlines l (List.mem_cons_of_mem _ hl)) (iters + 1) _ _ hlater,
      List.flatten_cons, List.length_append]
    rfl

theorem addElems_false (elems : List String) (dli : String) :
    (addElems elems dli false).1.toList =
        dli.toList ++ elems.flatMap (fun elem => ',' :: ' ' :: elem.toList) ∧
      (addElems elems dli false).2 = false := by
  induction elems generalizing dli with
  | nil => simp [addElems]
  | cons elem rest ih =>
    rw [addElems, if_neg Bool.false_ne_true]
    obtain ⟨htext, hstarter⟩ := ih (dli ++ (", " ++ elem))
    refine ⟨?_, hstarter⟩
    rw [htext, String.toList_append, String.toList_append, List.flatMap_cons, List.append_assoc,
      List.append_assoc]
    rfl

/-- Elements behind others. -/
theorem separated_addElems {written : List (List Char)} {body : List Char}
    (h : Separated Spaced written body) (elems : List String) :
    Separated Spaced (written ++ elems.map String.toList)
      (body ++ elems.flatMap fun elem => ',' :: ' ' :: elem.toList) := by
  induction elems generalizing written body with
  | nil => simpa using h
  | cons elem rest ih =>
    have hspace : Whitespace [' '] := fun c hc => by
      rw [List.mem_singleton.mp hc]
      decide
    have helem : Spaced elem.toList ([' '] ++ elem.toList) := spaced_before hspace
    have hnext := ih (separated_concat h helem)
    rw [List.append_assoc, List.append_assoc] at hnext
    exact hnext

theorem whitespace_newline : Whitespace ['\n'] := fun c hc => by
  rw [List.mem_singleton.mp hc]
  decide

/-- Batches behind others. -/
theorem separated_pieces {written : List (List Char)} {body : List Char}
    (h : Separated Spaced written body) (lines : List (List String)) :
    Separated Spaced (written ++ lines.flatten.map String.toList)
      (body ++ (String.join (pieces false lines)).toList) := by
  induction lines generalizing written body with
  | nil => simpa [pieces] using h
  | cons line rest ih =>
    obtain ⟨htext, hstarter⟩ := addElems_false line ""
    have hline := separated_whitespace (separated_addElems h line) whitespace_newline
    have hnext := ih hline
    rw [pieces, hstarter, String.join_cons, String.toList_append, String.toList_append, htext,
      List.flatten_cons, List.map_append]
    simpa [List.append_assoc] using hnext

/-- All batches. -/
theorem separated_all {elem : String} {line : List String} {rest : List (List String)} :
    Separated Spaced (((elem :: line) :: rest).flatten.map String.toList)
      (String.join (pieces true ((elem :: line) :: rest))).toList := by
  obtain ⟨htext, hstarter⟩ := addElems_false line ("" ++ ("\n" ++ elem))
  have helem : Separated Spaced [elem.toList] (['\n'] ++ elem.toList) :=
    .one (spaced_before whitespace_newline)
  have hline := separated_whitespace (separated_addElems helem line) whitespace_newline
  have hnext := separated_pieces hline rest
  rw [pieces, addElems, if_pos rfl, hstarter, String.join_cons, String.toList_append,
    String.toList_append, htext, List.flatten_cons, List.map_append]
  simpa [List.append_assoc] using hnext

-- ---------------------------------------------------------------------------
-- From the writer to the reader
-- ---------------------------------------------------------------------------

theorem asInt_of_lt {n : Nat} (h : n < 2 ^ 31) : asInt (n % UINT32) = n := by
  have hmod : n % UINT32 = n := Nat.mod_eq_of_lt (by rw [UINT32]; omega)
  rw [hmod, asInt, if_pos h]

theorem asInt_lt (n : Nat) : asInt (n % UINT32) < 2 ^ 31 := by
  have hlt : n % 2 ^ 32 < 2 ^ 32 := Nat.mod_lt _ (by decide)
  rw [asInt, UINT32]
  split
  · omega
  · omega

/-- The text of the member name. -/
def valueName : List Char := "\"value\"".toList

theorem stringText_valueName : StringText valueName := by
  refine ⟨"value".toList, ?_, rfl⟩
  refine .plain ?_ ?_ ?_ (.plain ?_ ?_ ?_ (.plain ?_ ?_ ?_ (.plain ?_ ?_ ?_ (.plain ?_ ?_ ?_ .nil))))
  all_goals decide

/-- The text is one JSON object, and its value is the array of these elements. -/
def ValueObject (elems : List (List Char)) (text : List Char) : Prop :=
  JsonText text ∧ ∃ arr, ArrayOf elems arr ∧ ObjectOf [(valueName, arr)] text

theorem valueObject_of_body {elems : List (List Char)} (helems : ∀ elem ∈ elems, JsonText elem)
    {body : List Char}
    (hbody : (elems = [] ∧ Whitespace body) ∨ Separated Spaced elems body) :
    ValueObject elems ("\x7b\"value\": [".toList ++ body ++ "]\x7d".toList) := by
  have harray : ArrayOf elems ('[' :: (body ++ [']'])) := ⟨body, rfl, hbody⟩
  have hspace : Whitespace [' '] := fun c hc => by
    rw [List.mem_singleton.mp hc]
    decide
  have hobject : ObjectOf [(valueName, '[' :: (body ++ [']']))]
      ("\x7b\"value\": [".toList ++ body ++ "]\x7d".toList) := by
    refine ⟨valueName ++ ':' :: ([' '] ++ '[' :: (body ++ [']'])), ?_,
      .inr (.one ⟨valueName, _, spaced_self _, spaced_before hspace, rfl⟩)⟩
    simp [valueName]
  refine ⟨.object ?_ ?_ hobject, _, harray, hobject⟩
  · intro member hmember
    rw [List.mem_singleton.mp hmember]
    exact stringText_valueName
  · intro member hmember
    rw [List.mem_singleton.mp hmember]
    exact .array helems harray

/-- The reader's text for the batches in redis. -/
theorem redis_query_chunk_value (qid : String) {lines : List (List String)}
    (hlines : ∀ line ∈ lines, line ≠ []) {lists : String → List String}
    (hlists : ∀ n, lists (resultKey qid n) = (lines[n]?).getD [])
    (hjson : ∀ row ∈ lines.flatten, JsonText row.toList) :
    ∃ fuel text, redis_query_chunk qid fuel lists = some text ∧
      ValueObject (lines.flatten.map String.toList) text.toList := by
  refine ⟨lines.length + 1, "\x7b\"value\": [" ++ String.join (pieces true lines) ++
    (if lines.flatten.length = 0 then "\n" ++ "]\x7d" else "]\x7d"), ?_, ?_⟩
  · rw [redis_query_chunk, readChunks_eq qid lines hlines 0 lists true fun n => by
      rw [Nat.zero_add]
      exact hlists n]
    rfl
  · have hrows : ∀ elem ∈ lines.flatten.map String.toList, JsonText elem := by
      intro elem helem
      obtain ⟨row, hrow, rfl⟩ := List.mem_map.mp helem
      exact hjson row hrow
    cases lines with
    | nil =>
      have htext := valueObject_of_body hrows (.inl ⟨rfl, whitespace_newline⟩)
      exact htext
    | cons line rest =>
      obtain ⟨elem, line, rfl⟩ := List.exists_cons_of_ne_nil (hlines line List.mem_cons_self)
      have hlength : ¬ (((elem :: line) :: rest).flatten.length = 0) := by
        rw [List.flatten_cons, List.length_append, List.length_cons]
        omega
      rw [if_neg hlength, String.toList_append, String.toList_append]
      exact valueObject_of_body hrows (.inr separated_all)

/-- The rows have come through: the batches are not empty and consecutively numbered, the last
status has their number and that of the rows, and the reader yields an object with the rows. -/
def Survives (qid : String) (res : List String) (r : RedisLists) : Prop :=
  ∃ lines : List (List String), lines.flatten = res ∧ (∀ line ∈ lines, line ≠ []) ∧
    (∀ n, r.rows (resultKey qid n) = (lines[n]?).getD []) ∧
    (r.stats (replyKey qid)).getLast? =
      some { progress := 100, lines := some lines.length, count := some res.length } ∧
    ∃ fuel text, redis_query_chunk qid fuel r.rows = some text ∧
      ValueObject (res.map String.toList) text.toList

/-- The count is a signed number of 32 bits. -/
theorem length_lt_of_survives (hoverflow : m.overflow = false) (hret : m.ret_code = true)
    {qid : String} {res : List String} {r : RedisLists}
    (h : Survives qid res (r.run (respCommands m qid res))) : res.length < 2 ^ 31 := by
  obtain ⟨lines, -, -, -, hstat, -⟩ := h
  rw [(run_commands hoverflow hret qid res r).2] at hstat
  have hcount : asInt (res.length % UINT32) = res.length :=
    Option.some.inj (congrArg StatText.count (Option.some.inj hstat))
  have hlt := asInt_lt res.length
  omega

theorem survives_of_length (hoverflow : m.overflow = false) (hret : m.ret_code = true)
    (qid : String) {res : List String} (hjson : ∀ row ∈ res, JsonText row.toList) {r : RedisLists}
    (hfresh : ∀ n, r.rows (resultKey qid n) = []) (hlength : res.length < 2 ^ 31) :
    Survives qid res (r.run (respCommands m qid res)) := by
  obtain ⟨hflatten, hlines, hcount⟩ := resultLines_spec res.length res (Nat.le_refl _)
  obtain ⟨hrows, hstat⟩ := run_commands hoverflow hret qid res r
  have hlists : ∀ n, (r.run (respCommands m qid res)).rows (resultKey qid n) =
      ((resultLines res.length res)[n]?).getD [] := by
    intro n
    rw [hrows (by rw [UINT32]; omega) n, hfresh n, List.nil_append]
  obtain ⟨fuel, text, htext, hvalue⟩ := redis_query_chunk_value qid hlines hlists (by rwa [hflatten])
  rw [hflatten] at hvalue
  refine ⟨_, hflatten, hlines, hlists, ?_, fuel, text, htext, hvalue⟩
  rw [hstat, asInt_of_lt hlength, asInt_of_lt (Nat.lt_of_le_of_lt hcount hlength)]

/-- The rows of a result survive if and only if there are fewer than 2^31. -/
theorem survives_iff (m : Stage0Merge ρ) (hoverflow : m.overflow = false) (hret : m.ret_code = true)
    (qid : String) (res : List String) (hjson : ∀ row ∈ res, JsonText row.toList) (r : RedisLists)
    (hfresh : ∀ n, r.rows (resultKey qid n) = []) :
    Survives qid res (r.run (respCommands m qid res)) ↔ res.length < 2 ^ 31 :=
  ⟨length_lt_of_survives hoverflow hret, survives_of_length hoverflow hret qid hjson hfresh⟩

/-- More than `max_rows` rows set `overflow`, so the rows that `QueryMerge` hands on are fewer; the
instances' rows are counted with 32 bits. -/
theorem survives_queryMerge {ν : Type} {inp : PipelineInput} {F : Folding ρ} {parsed : Bool}
    {subs : List (Stage0Out ν ρ)} (hmerge : QueryMerge inp F parsed subs = some m)
    (hoverflow : m.overflow = false) (hret : m.ret_code = true) (hmax : inp.max_rows < 2 ^ 31)
    (htotal : (subs.map fun sub => F.size sub.result).sum < UINT32)
    (hsize : ∀ parsed results rc result, F.merge parsed results = some (rc, result) →
      F.size result ≤ (results.map F.size).sum)
    (qid : String) {res : List String} (hres : res.length = F.size m.result)
    (hjson : ∀ row ∈ res, JsonText row.toList) {r : RedisLists}
    (hfresh : ∀ n, r.rows (resultKey qid n) = []) :
    Survives qid res (r.run (respCommands m qid res)) := by
  refine survives_of_length hoverflow hret qid hjson hfresh ?_
  unfold QueryMerge at hmerge
  simp only [Nat.mod_eq_of_lt htotal] at hmerge
  split at hmerge
  · cases hmerge
  split at hmerge
  · obtain rfl := Option.some.inj hmerge
    cases hoverflow
  rename_i hfew
  split at hmerge
  · obtain rfl := Option.some.inj hmerge
    cases hret
  · obtain ⟨⟨rc, result⟩, hresult, rfl⟩ := Option.map_eq_some_iff.mp hmerge
    have hle := hsize parsed _ rc result hresult
    rw [List.map_map] at hle
    have hsame : F.size result ≤ (subs.map fun sub => F.size sub.result).sum := hle
    rw [hres]
    show F.size result < 2 ^ 31
    omega

/-- A result without errors. -/
def sampleMerge : Stage0Merge Unit := ⟨true, false, ()⟩

theorem jsonText_empty_object : JsonText "\x7b\x7d".toList :=
  .object (fun _ h => absurd h List.not_mem_nil) (fun _ h => absurd h List.not_mem_nil)
    ⟨[], rfl, .inl ⟨rfl, whitespace_nil⟩⟩

theorem survives_sample :
    Survives "17" ["\x7b\x7d", "\x7b\x7d"] (RedisLists.run ⟨fun _ => [], fun _ => []⟩
      (respCommands sampleMerge "17" ["\x7b\x7d", "\x7b\x7d"])) :=
  (survives_iff sampleMerge rfl rfl "17" ["\x7b\x7d", "\x7b\x7d"]
    (fun row hrow => by
      simp only [List.mem_cons, List.not_mem_nil, or_false, or_self] at hrow
      rw [hrow]
      exact jsonText_empty_object) ⟨fun _ => [], fun _ => []⟩ (fun _ => rfl)).mpr (by decide)

/-- With 2^31 rows the reported count is negative. -/
theorem not_survives :
    ¬ ∀ (m : Stage0Merge Unit) (qid : String) (res : List String) (r : RedisLists),
      m.overflow = false → m.ret_code = true → (∀ row ∈ res, JsonText row.toList) →
      (∀ n, r.rows (resultKey qid n) = []) → Survives qid res (r.run (respCommands m qid res)) := by
  intro h
  have hsurvives := h sampleMerge "17" (List.replicate (2 ^ 31) "\x7b\x7d") ⟨fun _ => [], fun _ => []⟩
    rfl rfl (fun row hrow => by
      rw [List.eq_of_mem_replicate hrow]
      exact jsonText_empty_object) fun _ => rfl
  have hlt := length_lt_of_survives rfl rfl hsurvives
  rw [List.length_replicate] at hlt
  exact Nat.lt_irrefl _ hlt

end TfAnalytics.QueryEngine
