import ChatRoom.Http.Request

/-!
# Query lookup

A query is a list of items separated by `&`, and an item of the form `k=v` is
split at its first `=` (`queryValue`).  `getQuery` looks for the `=` first and for
the `&` behind it, so an item without `=` becomes a part of the key of the next
item that has one (`Entry.spelled`).  The lookup is right iff this does not hide
or make up the item it should have found (`Undisturbed`).
-/

namespace ChatRoom
namespace Http

open Text

/-- The `&`-separated items of a query. -/
def queryItems (query : Bytes) : List Bytes :=
  query.splitOn 0x26

/-- The key and the value of an item that has a `=`. -/
def pairOf (item : Bytes) : Option (Bytes × Bytes) :=
  (find (bytes "=") item).map fun eq => (item.take eq, item.drop (eq + 1))

/-- The value of the first item of the form `k=v`, or the empty string. -/
def queryValue (query k : Bytes) : Bytes :=
  (((queryItems query).filterMap pairOf).lookup k).getD []

/-- An item of the form `key=val`, with the items without `=` directly in front of it. -/
structure Entry where
  bare : List Bytes
  key : Bytes
  val : Bytes
deriving DecidableEq

/-- What stands in front of the `=`, back to the item in front that has one. -/
def Entry.spelled (e : Entry) : Bytes :=
  [0x26].intercalate (e.bare ++ [e.key])

/-- The items with a `=`, when `bare` has been passed since the last one. -/
def entriesFrom : List Bytes → List Bytes → List Entry
  | _, [] => []
  | bare, item :: items =>
      match pairOf item with
      | none => entriesFrom (bare ++ [item]) items
      | some (key, val) => { bare := bare, key := key, val := val } :: entriesFrom [] items

def queryEntries (query : Bytes) : List Entry :=
  entriesFrom [] (queryItems query)

/-- The value of the first entry with a name, or the empty string. -/
def valueUnder (name : Entry → Bytes) (k : Bytes) (es : List Entry) : Bytes :=
  ((es.find? fun e => name e = k).map Entry.val).getD []

/-- The first entry that has the key or spells it does both, or it has the value of the
first later one that does the other. -/
def Undisturbed (k : Bytes) (es : List Entry) : Prop :=
  ∀ front e back, es = front ++ e :: back → (∀ d ∈ front, d.key ≠ k ∧ d.spelled ≠ k) →
    (e.key = k → e.bare = [] ∨ e.val = valueUnder Entry.spelled k back) ∧
      (e.spelled = k → e.bare = [] ∨ e.val = valueUnder Entry.key k back)

section Entries

theorem pairOf_pair
    {key : Bytes} (hkey : 0x3D ∉ key) (val : Bytes) :
    pairOf (key ++ 0x3D :: val) = some (key, val) := by
  have hfind : find (bytes "=") (key ++ 0x3D :: val) = some key.length := find_behind hkey val
  rw [pairOf, hfind]
  simp

theorem pairOf_bare
    {item : Bytes} (hitem : 0x3D ∉ item) :
    pairOf item = none := by
  have hfind : find (bytes "=") item = none := find_eq_none hitem
  rw [pairOf, hfind]
  rfl

/-- The items in front of the first one with a `=` are passed. -/
theorem entriesFrom_append
    {front : List Bytes} (hfront : ∀ item ∈ front, 0x3D ∉ item) (bare items : List Bytes) :
    entriesFrom bare (front ++ items) = entriesFrom (bare ++ front) items := by
  induction front generalizing bare with
  | nil =>
      rw [List.nil_append, List.append_nil]
  | cons item front ih =>
      rw [List.cons_append, entriesFrom, pairOf_bare (hfront item List.mem_cons_self)]
      dsimp only
      rw [ih fun item h => hfront item (List.mem_cons_of_mem _ h), List.append_assoc,
        List.singleton_append]

theorem entriesFrom_bare
    {items : List Bytes} (hitems : ∀ item ∈ items, 0x3D ∉ item) :
    entriesFrom [] items = [] := by
  have h := entriesFrom_append hitems [] []
  rwa [List.append_nil] at h

theorem entriesFrom_cons
    (bare : List Bytes) {key : Bytes} (hkey : 0x3D ∉ key) (val : Bytes) (items : List Bytes) :
    entriesFrom bare ((key ++ 0x3D :: val) :: items) =
      { bare := bare, key := key, val := val } :: entriesFrom [] items := by
  rw [entriesFrom, pairOf_pair hkey]

/-- The items have no `=`, or there is a first one that has. -/
theorem items_cases
    (items : List Bytes) :
    (∀ item ∈ items, 0x3D ∉ item) ∨
      ∃ front key val back, items = front ++ (key ++ 0x3D :: val) :: back ∧
        (∀ item ∈ front, 0x3D ∉ item) ∧ 0x3D ∉ key := by
  induction items with
  | nil =>
      exact .inl (by simp)
  | cons item items ih =>
      by_cases hitem : 0x3D ∈ item
      · obtain ⟨key, val, rfl, hkey⟩ := List.eq_append_cons_of_mem hitem
        exact .inr ⟨[], key, val, items, rfl, by simp, hkey⟩
      · rcases ih with hall | ⟨front, key, val, back, rfl, hfront, hkey⟩
        · exact .inl (List.forall_mem_cons.mpr ⟨hitem, hall⟩)
        · have hall : ∀ item' ∈ item :: front, 0x3D ∉ item' :=
            List.forall_mem_cons.mpr ⟨hitem, hfront⟩
          exact .inr ⟨item :: front, key, val, back, rfl, hall, hkey⟩

/-- The lookup by own keys is the lookup among the entries. -/
theorem lookup_filterMap_pairOf
    (k : Bytes) (bare items : List Bytes) :
    ((items.filterMap pairOf).lookup k).getD [] =
      valueUnder Entry.key k (entriesFrom bare items) := by
  induction items generalizing bare with
  | nil =>
      rfl
  | cons item items ih =>
      cases hpair : pairOf item with
      | none =>
          rw [List.filterMap_cons_none hpair, entriesFrom, hpair]
          exact ih (bare ++ [item])
      | some pair =>
          obtain ⟨key, val⟩ := pair
          rw [List.filterMap_cons_some hpair, entriesFrom, hpair, List.lookup_cons, valueUnder,
            List.find?_cons]
          by_cases hkey : key = k
          · simp [hkey]
          · have hne : (k == key) = false := by
              simpa using fun h => hkey h.symm
            simp only [hne, hkey, decide_false]
            exact ih []

end Entries

section Lookup

/-- The text of some items without `=`, with the `&` behind each. -/
def bareText (front : List Bytes) : Bytes :=
  front.flatMap fun item => item ++ [0x26]

theorem intercalate_bareText
    (front : List Bytes) (item : Bytes) (back : List Bytes) :
    [0x26].intercalate (front ++ item :: back) =
      bareText front ++ [0x26].intercalate (item :: back) := by
  induction front with
  | nil =>
      rfl
  | cons first front ih =>
      obtain ⟨second, rest, hrest⟩ := List.exists_cons_of_ne_nil
        (show front ++ item :: back ≠ [] by simp)
      rw [List.cons_append, hrest, List.intercalate_cons_cons, ← hrest, ih]
      simp [bareText]

/-- Without a `=` nothing is found. -/
theorem getQueryFrom_bare
    (k : Bytes) (fuel : Nat) {rest : Bytes} (hrest : 0x3D ∉ rest) :
    HttpRequest.getQueryFrom k fuel rest = [] := by
  cases fuel with
  | zero =>
      rfl
  | succ fuel =>
      have hfind : find (bytes "=") rest = none := find_eq_none hrest
      rw [HttpRequest.getQueryFrom, hfind, ite_self]

/-- A turn of the loop at the last `=`. -/
theorem getQueryFrom_last
    (k : Bytes) (fuel : Nat) {lead val : Bytes} (hlead : 0x3D ∉ lead) (hval : 0x26 ∉ val) :
    HttpRequest.getQueryFrom k (fuel + 1) (lead ++ 0x3D :: val) =
      if lead = k then val else [] := by
  have heq : find (bytes "=") (lead ++ 0x3D :: val) = some lead.length := find_behind hlead val
  have hamp : findFrom (bytes "&") (lead ++ 0x3D :: val) lead.length = none := by
    have hnone : find (bytes "&") (0x3D :: val) = none := by
      refine find_eq_none ?_
      simp [hval]
    rw [findFrom, List.drop_left, hnone]
    rfl
  rw [HttpRequest.getQueryFrom, heq]
  simp [hamp, substr]

/-- A turn of the loop at a `=` with a `&` behind it. -/
theorem getQueryFrom_turn
    (k : Bytes) (fuel : Nat) {lead val : Bytes} (hlead : 0x3D ∉ lead) (hval : 0x26 ∉ val)
    (rest : Bytes) :
    HttpRequest.getQueryFrom k (fuel + 1) (lead ++ 0x3D :: (val ++ 0x26 :: rest)) =
      if lead = k then val else HttpRequest.getQueryFrom k fuel rest := by
  have heq : find (bytes "=") (lead ++ 0x3D :: (val ++ 0x26 :: rest)) = some lead.length :=
    find_behind hlead _
  have hamp : findFrom (bytes "&") (lead ++ 0x3D :: (val ++ 0x26 :: rest)) lead.length =
      some (val.length + 1 + lead.length) := by
    have hbehind : find (bytes "&") ((0x3D :: val) ++ 0x26 :: rest) =
        some (0x3D :: val).length := by
      refine find_behind ?_ rest
      simp [hval]
    rw [findFrom, List.drop_left, ← List.cons_append, hbehind]
    rfl
  have hval : substr (lead ++ 0x3D :: (val ++ 0x26 :: rest)) (lead.length + 1)
      (val.length + 1 + lead.length - lead.length - 1) = val := by
    have hlen : val.length + 1 + lead.length - lead.length - 1 = val.length := by omega
    rw [substr, hlen, ← List.drop_drop, List.drop_left]
    exact List.take_left
  have hdrop : (lead ++ 0x3D :: (val ++ 0x26 :: rest)).drop (val.length + 1 + lead.length + 1) =
      rest := by
    have hlen : val.length + 1 + lead.length + 1 = lead.length + (val.length + 1 + 1) := by omega
    rw [hlen, ← List.drop_drop, List.drop_left, List.drop_succ_cons, ← List.drop_drop,
      List.drop_left]
    rfl
  rw [HttpRequest.getQueryFrom, heq]
  dsimp only
  rw [hamp]
  dsimp only
  rw [hval, hdrop]
  simp [substr]

theorem not_mem_bareText
    {front : List Bytes} (hfront : ∀ item ∈ front, 0x3D ∉ item) :
    0x3D ∉ bareText front := by
  simp only [bareText, List.mem_flatMap, List.mem_append, List.mem_singleton, not_exists, not_and,
    not_or]
  exact fun item hitem => ⟨hfront item hitem, by decide⟩

theorem not_mem_intercalate
    {items : List Bytes} (hitems : ∀ item ∈ items, 0x3D ∉ item) :
    0x3D ∉ [0x26].intercalate items := by
  rcases List.eq_nil_or_concat items with rfl | ⟨front, last, rfl⟩
  · exact List.not_mem_nil
  · rw [List.concat_eq_append, List.forall_mem_append] at hitems
    rw [List.concat_eq_append, intercalate_bareText, List.intercalate_singleton, List.mem_append]
    rintro (h | h)
    · exact not_mem_bareText hitems.1 h
    · exact hitems.2 last (by simp) h

theorem valueUnder_cons
    (name : Entry → Bytes) (k : Bytes) (e : Entry) (es : List Entry) :
    valueUnder name k (e :: es) = if name e = k then e.val else valueUnder name k es := by
  rw [valueUnder, List.find?_cons]
  by_cases he : name e = k
  · simp [he]
  · simp [he, valueUnder]

/-- The loop reads the entries one by one, under what they spell. -/
theorem getQueryFrom_eq
    (k : Bytes) {fuel : Nat} {items : List Bytes} (hitems : ∀ item ∈ items, 0x26 ∉ item)
    (hfuel : ([0x26].intercalate items).length ≤ fuel) :
    HttpRequest.getQueryFrom k fuel ([0x26].intercalate items) =
      valueUnder Entry.spelled k (entriesFrom [] items) := by
  induction fuel generalizing items with
  | zero =>
      rcases items_cases items with hall | ⟨front, key, val, back, rfl, -⟩
      · rw [entriesFrom_bare hall]
        rfl
      · rw [intercalate_bareText] at hfuel
        cases back <;> simp at hfuel
  | succ fuel ih =>
      rcases items_cases items with hall | ⟨front, key, val, back, rfl, hfront, hkey⟩
      · rw [entriesFrom_bare hall, getQueryFrom_bare k _ (not_mem_intercalate hall)]
        rfl
      · have hlead : 0x3D ∉ bareText front ++ key := by
          rw [List.mem_append]
          exact fun h => h.elim (not_mem_bareText hfront) hkey
        obtain ⟨hpair, hback⟩ := List.forall_mem_cons.mp (List.forall_mem_append.mp hitems).2
        have hval : 0x26 ∉ val := fun h => hpair (by simp [h])
        have hspelled : [0x26].intercalate (front ++ [key]) = bareText front ++ key := by
          rw [intercalate_bareText, List.intercalate_singleton]
        rw [entriesFrom_append hfront, List.nil_append, entriesFrom_cons _ hkey, valueUnder_cons,
          Entry.spelled, hspelled, intercalate_bareText]
        rw [intercalate_bareText] at hfuel
        cases back with
        | nil =>
            rw [List.intercalate_singleton, ← List.append_assoc,
              getQueryFrom_last k fuel hlead hval]
            rfl
        | cons next back =>
            rw [List.intercalate_cons_cons] at hfuel ⊢
            simp only [List.append_assoc, List.cons_append, List.nil_append] at hfuel ⊢
            rw [← List.append_assoc, getQueryFrom_turn k fuel hlead hval]
            rw [ih hback ?_]
            simp at hfuel
            omega

theorem getQuery_eq
    (query k : Bytes) {fuel : Nat} (hfuel : query.length ≤ fuel) :
    HttpRequest.getQueryFrom k fuel query = valueUnder Entry.spelled k (queryEntries query) := by
  have htext : [0x26].intercalate (queryItems query) = query := List.intercalate_splitOn 0x26
  have hitems : ∀ item ∈ queryItems query, 0x26 ∉ item := fun _ => not_mem_of_mem_splitOn
  have h := getQueryFrom_eq k hitems (htext.symm ▸ hfuel)
  rwa [htext] at h

theorem queryValue_eq
    (query k : Bytes) :
    queryValue query k = valueUnder Entry.key k (queryEntries query) := by
  exact lookup_filterMap_pairOf k [] (queryItems query)

end Lookup

section Comparison

/-- Only an entry without items in front spells its key. -/
theorem spelled_eq_key_iff
    (e : Entry) :
    e.spelled = e.key ↔ e.bare = [] := by
  rw [Entry.spelled, intercalate_bareText, List.intercalate_singleton]
  constructor
  · intro h
    have hlen := congrArg List.length h
    cases hbare : e.bare with
    | nil =>
        rfl
    | cons item bare =>
        rw [hbare] at hlen
        simp [bareText] at hlen
        omega
  · intro h
    rw [h]
    rfl

/-- The entries are the items that have a `=`. -/
theorem entriesFrom_pairs
    (bare items : List Bytes) :
    (entriesFrom bare items).map (fun e => (e.key, e.val)) = items.filterMap pairOf := by
  induction items generalizing bare with
  | nil =>
      rfl
  | cons item items ih =>
      rw [entriesFrom]
      cases hpair : pairOf item with
      | none =>
          rw [List.filterMap_cons_none hpair]
          exact ih _
      | some pair =>
          rw [List.filterMap_cons_some hpair, List.map_cons, ih]

/-- An entry with items in front spells a name with a `&`. -/
theorem bare_eq_nil_of_spelled
    {e : Entry} {k : Bytes} (hk : 0x26 ∉ k) (hspelled : e.spelled = k) :
    e.bare = [] := by
  cases hbare : e.bare with
  | nil =>
      rfl
  | cons item bare =>
      refine absurd ?_ hk
      rw [← hspelled, Entry.spelled, intercalate_bareText, hbare]
      simp [bareText]

/-- What a lookup finds is the value of an item with this key. -/
theorem mem_pairs_of_getQuery
    {req : HttpRequest} {k : Bytes} (hk : 0x26 ∉ k) (hsome : (req.getQuery k).isEmpty = false) :
    (k, req.getQuery k) ∈ (queryItems req.query).filterMap pairOf := by
  have hvalue : req.getQuery k = valueUnder Entry.spelled k (queryEntries req.query) :=
    getQuery_eq req.query k le_rfl
  rw [hvalue, valueUnder] at hsome ⊢
  cases hfound : (queryEntries req.query).find? fun e => e.spelled = k with
  | none =>
      simp [hfound] at hsome
  | some e =>
      have hspelled : e.spelled = k := by
        simpa using List.find?_some hfound
      have hkey : e.key = k := by
        rw [← hspelled]
        exact ((spelled_eq_key_iff e).mpr (bare_eq_nil_of_spelled hk hspelled)).symm
      rw [← entriesFrom_pairs [] (queryItems req.query)]
      exact List.mem_map.mpr ⟨e, List.mem_of_find?_eq_some hfound, by simp [hkey]⟩

/-- An entry that has neither name does not matter. -/
theorem undisturbed_cons_of_ne
    {k : Bytes} {e : Entry} (hkey : e.key ≠ k) (hspelled : e.spelled ≠ k) (es : List Entry) :
    Undisturbed k (e :: es) ↔ Undisturbed k es := by
  constructor
  · rintro h front d back rfl hfront
    refine h (e :: front) d back rfl ?_
    exact List.forall_mem_cons.mpr ⟨⟨hkey, hspelled⟩, hfront⟩
  · intro h front d back hsplit hfront
    cases front with
    | nil =>
        cases hsplit
        exact ⟨fun h => absurd h hkey, fun h => absurd h hspelled⟩
    | cons first front =>
        obtain ⟨rfl, rfl⟩ := List.cons.inj hsplit
        exact h front d back rfl (List.forall_mem_cons.mp hfront).2

/-- The first entry that has one of the names decides. -/
theorem undisturbed_cons_of_eq
    {k : Bytes} {e : Entry} (he : e.key = k ∨ e.spelled = k) (es : List Entry) :
    Undisturbed k (e :: es) ↔
      (e.key = k → e.bare = [] ∨ e.val = valueUnder Entry.spelled k es) ∧
        (e.spelled = k → e.bare = [] ∨ e.val = valueUnder Entry.key k es) := by
  constructor
  · intro h
    exact h [] e es rfl (by simp)
  · intro h front d back hsplit hfront
    cases front with
    | nil =>
        cases hsplit
        exact h
    | cons first front =>
        obtain ⟨rfl, rfl⟩ := List.cons.inj hsplit
        obtain ⟨hkey, hspelled⟩ := hfront e List.mem_cons_self
        exact absurd he (by simp [hkey, hspelled])

/-- Both names of the entries lead to the same value iff the first entry that has one of
them has both, or the value of the first later one with the other. -/
theorem valueUnder_eq_iff
    (k : Bytes) (es : List Entry) :
    valueUnder Entry.spelled k es = valueUnder Entry.key k es ↔ Undisturbed k es := by
  induction es with
  | nil =>
      refine iff_of_true rfl ?_
      intro front e back hsplit
      simp at hsplit
  | cons e es ih =>
      have hboth := spelled_eq_key_iff e
      rw [valueUnder_cons, valueUnder_cons]
      by_cases hkey : e.key = k
      · rw [if_pos hkey, undisturbed_cons_of_eq (.inl hkey)]
        by_cases hspelled : e.spelled = k
        · have hbare := hboth.mp (hspelled.trans hkey.symm)
          rw [if_pos hspelled]
          exact iff_of_true rfl ⟨fun _ => .inl hbare, fun _ => .inl hbare⟩
        · have hbare : e.bare ≠ [] := fun h => hspelled ((hboth.mpr h).trans hkey)
          rw [if_neg hspelled]
          simp [hkey, hspelled, hbare, eq_comm]
      · by_cases hspelled : e.spelled = k
        · have hbare : e.bare ≠ [] := fun h => hkey ((hboth.mpr h).symm.trans hspelled)
          rw [if_pos hspelled, if_neg hkey, undisturbed_cons_of_eq (.inr hspelled)]
          simp [hkey, hspelled, hbare]
        · rw [if_neg hspelled, if_neg hkey, undisturbed_cons_of_ne hkey hspelled]
          exact ih

end Comparison

/-- More turns than the query has bytes change nothing, so the loop of `getQuery` ends; and
it finds the value of the first item of the form `k=v` iff no item without `=` disturbs
it. -/
theorem getQuery_eq_queryValue_iff
    (req : HttpRequest) (k : Bytes) :
    (∀ fuel, req.query.length ≤ fuel →
      HttpRequest.getQueryFrom k fuel req.query = req.getQuery k) ∧
      (req.getQuery k = queryValue req.query k ↔ Undisturbed k (queryEntries req.query)) := by
  have hquery : req.getQuery k = valueUnder Entry.spelled k (queryEntries req.query) :=
    getQuery_eq req.query k le_rfl
  refine ⟨?_, ?_⟩
  · intro fuel hfuel
    rw [hquery, getQuery_eq req.query k hfuel]
  · rw [hquery, queryValue_eq]
    exact valueUnder_eq_iff k _

/-- A request whose token stands behind an item without `=`. -/
def hiddenToken : Bytes :=
  bytes "GET /api/messages?a&token=x HTTP/1.1\r\n\r\n"

theorem getQuery_hiddenToken :
    ∃ req readBuf, HttpRequest.new.parse (Buffer.new.append hiddenToken) = (true, req, readBuf) ∧
      req.getQuery (bytes "token") = [] ∧ queryValue req.query (bytes "token") = bytes "x" := by
  have hevaluated :
      (HttpRequest.new.parse (Buffer.new.append hiddenToken)).1 = true ∧
        (HttpRequest.new.parse (Buffer.new.append hiddenToken)).2.1.getQuery (bytes "token") = [] ∧
        queryValue (HttpRequest.new.parse (Buffer.new.append hiddenToken)).2.1.query
          (bytes "token") = bytes "x" := by
    decide +kernel
  generalize HttpRequest.new.parse (Buffer.new.append hiddenToken) = parsed at hevaluated ⊢
  obtain ⟨complete, req, readBuf⟩ := parsed
  obtain ⟨rfl, hcode, hvalue⟩ := hevaluated
  exact ⟨req, readBuf, rfl, hcode, hvalue⟩

end Http
end ChatRoom
