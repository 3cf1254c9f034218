import SearchTable.Proofs.Store.Versions
import SearchTable.Proofs.Table.Frame
/-!
# How many rows an update leaves

An update is meant to change rows and never to add any.  What a match is written under decides it.
A match whose identity stays is patched where it stands, and one whose identity changes gives its
old place up before it takes another one, so a group of such writes leaves no more documents than
there were (`Reconcile.length_applyGroup_stage_le`), and so does a list of pairs
(`Reconcile.length_runPairs_le`).

The exception are changes of the identity field.  They fill the field of a patch that should say
which document is meant: the store takes the text of the marker for the identity, does not find it,
and adds a row (`Reconcile.length_lt_accept_patchDocument`).  Rebuilt documents are safe, because
their identity is set last.  `Table.length_update_le` says both: an update adds no row when pairs
that assign the identity reach only matches whose identity changes otherwise, and when no key is
assigned there is no other way.
-/

namespace SearchTable

open Memory Document Reconcile

namespace Memory

variable {c : Contents} {d x : Document} {id other : String} {ids : List String}

/-! ## Numbers of documents -/

/-- Documents with identities of their own and without repeated fields. -/
structure Tidy (ds : List Document) : Prop where
  keyed : Keyed ds
  names : ∀ d ∈ ds, d.HasDistinctNames

theorem Tidy.discard (h : Tidy c.documents) (ids : List String) :
    Tidy (c.discard ids).documents where
  keyed := h.keyed.filter _
  names d hd := h.names d (List.mem_of_mem_filter hd)

theorem Tidy.accept (h : Tidy c.documents) (hx : Addresses x id) (hnames : x.HasDistinctNames) :
    Tidy (c.accept x).documents where
  keyed := h.keyed.accept hx
  names e he := by
    obtain he | ⟨o, ho, rfl⟩ := mem_documents_accept hx he
    · exact h.names e he
    · refine HasDistinctNames.insert ?_ _ _
      cases o with
      | none => exact hasDistinctNames_applyFields hasDistinctNames_empty _
      | some d =>
        rw [writtenOver]
        split
        · exact hasDistinctNames_applyFields (h.names d (ho d rfl)) _
        · exact hnames

theorem Tidy.foldl_accept {xs : List Document} (h : Tidy c.documents)
    (hxs : ∀ x ∈ xs, (∃ id, Addresses x id) ∧ x.HasDistinctNames) :
    Tidy (xs.foldl Contents.accept c).documents := by
  induction xs generalizing c with
  | nil => exact h
  | cons x xs ih =>
    rw [List.forall_mem_cons] at hxs
    obtain ⟨⟨⟨id, hid⟩, hnames⟩, hrest⟩ := hxs
    exact ih (h.accept hid hnames) hrest

/-- A write takes no document away. -/
theorem length_le_accept (c : Contents) (x : Document) :
    c.documents.length ≤ (c.accept x).documents.length := by
  cases hx : x.get? idField with
  | none =>
    have hrefused : c.accept x = c := by simp [Contents.accept, Contents.put, hx, Except.toOption]
    rw [hrefused]
  | some v =>
    rcases accept_cases hx c with ⟨-, hafter⟩ | ⟨before, e, after, hds, -, hafter⟩
    · simp [hafter]
    · simp [hds, hafter]

theorem length_le_foldl_accept (xs : List Document) (c : Contents) :
    c.documents.length ≤ (xs.foldl Contents.accept c).documents.length := by
  induction xs generalizing c with
  | nil => exact le_rfl
  | cons x xs ih => exact (length_le_accept c x).trans (ih _)

theorem isSome_find_iff : (c.find id).isSome = true ↔ ∃ d ∈ c.documents, hasId id d = true := by
  rw [Contents.find, List.find?_isSome]

/-- A write that finds no document adds one. -/
theorem length_accept_of_find_none {v : Stored} (hx : x.get? idField = some v)
    (hnone : c.find (idText v) = none) :
    (c.accept x).documents.length = c.documents.length + 1 := by
  rcases accept_cases hx c with ⟨-, hafter⟩ | ⟨before, e, after, hds, he, -⟩
  · simp [hafter]
  · have hmem : e ∈ c.documents := by simp [hds]
    exact absurd he (List.find?_eq_none.1 hnone e hmem)

/-- A write adds a document only when it finds none. -/
theorem length_accept_le (hx : Addresses x id) (c : Contents) :
    (c.accept x).documents.length ≤
      c.documents.length + if (c.find id).isNone then 1 else 0 := by
  rcases accept_cases hx.get?_eq c with ⟨hnone, hafter⟩ | ⟨before, e, after, hds, -, hafter⟩
  · have hfind : c.find id = none := List.find?_eq_none.2 fun d hd => by
      simpa [idText, Stored.plain] using hnone d hd
    simp [hafter, hfind]
  · simp [hds, hafter]

/-- What is found before a write is found after it. -/
theorem isSome_find_accept (hx : Addresses x id) (h : (c.find other).isSome = true) :
    ((c.accept x).find other).isSome = true := by
  rw [find_accept hx]
  split
  · rfl
  · exact h

section Writes

variable {α : Type} {f : α → Document} {g : α → String} {as : List α}

theorem isSome_find_foldl_accept (hf : ∀ a ∈ as, Addresses (f a) (g a))
    (h : (c.find other).isSome = true) :
    (((as.map f).foldl Contents.accept c).find other).isSome = true := by
  induction as generalizing c with
  | nil => exact h
  | cons a as ih =>
    rw [List.forall_mem_cons] at hf
    exact ih hf.2 (isSome_find_accept hf.1 h)

/-- Writes add at most one document for each of them that finds none at the start. -/
theorem length_foldl_accept_le (hf : ∀ a ∈ as, Addresses (f a) (g a)) :
    ((as.map f).foldl Contents.accept c).documents.length ≤
      c.documents.length + as.countP fun a => (c.find (g a)).isNone := by
  induction as generalizing c with
  | nil => simp
  | cons a as ih =>
    rw [List.forall_mem_cons] at hf
    have hfirst := length_accept_le hf.1 c
    have hrest := ih (c := c.accept (f a)) hf.2
    have hmono : (as.countP fun a' => ((c.accept (f a)).find (g a')).isNone) ≤
        as.countP fun a' => (c.find (g a')).isNone := by
      refine List.countP_mono_left fun a' _ hnone => ?_
      rw [Option.isNone_iff_eq_none, ← Option.not_isSome_iff_eq_none] at hnone ⊢
      exact mt (isSome_find_accept hf.1) hnone
    rw [List.map_cons, List.foldl_cons, List.countP_cons]
    omega

end Writes

/-- A deletion takes at least as many documents away as it finds. -/
theorem length_discard_le (hnodup : ids.Nodup) (hfound : ∀ id ∈ ids, (c.find id).isSome = true) :
    (c.discard ids).documents.length + ids.length ≤ c.documents.length := by
  have hsplit := List.length_eq_length_filter_add (l := c.documents) (isSpared ids)
  have hsubset : ids.map some ⊆
      (c.documents.filter fun d => !isSpared ids d).map (Document.getText? · idField) := by
    intro o ho
    obtain ⟨id, hid, rfl⟩ := List.mem_map.1 ho
    obtain ⟨d, hd, hhas⟩ := isSome_find_iff.1 (hfound id hid)
    have htext := hasId_eq_true_iff.1 hhas
    refine List.mem_map.2 ⟨d, List.mem_filter.2 ⟨hd, ?_⟩, htext⟩
    rw [isSpared_of_getText? htext]
    simpa using hid
  have hle := ((hnodup.map (Option.some_injective _)).subperm hsubset).length_le
  simp only [List.length_map] at hle
  simp only [Contents.discard]
  omega

end Memory

namespace Reconcile

variable {plan : Plan} {changes : Changes} {condition : Condition} {params : Bindings}
  {c c' c'' : Contents} {d : Document} {ds : List Document} {id : String}

/-! ## Groups -/

/-- The write for a match goes under the identity that the match has after the changes. -/
structure Settles (plan : Plan) (changes : Changes) (d : Document) : Prop where
  addresses : Addresses (stage plan changes d).write (newId plan changes d)
  names : (stage plan changes d).write.HasDistinctNames

/-- A match whose identity is not assigned, or changes otherwise, is written under its identity. -/
theorem settles_of_ne (hnames : d.HasDistinctNames)
    (h : idField ∈ changes.map Prod.fst → newId plan changes d ≠ oldId d) :
    Settles plan changes d := by
  by_cases hsame : newId plan changes d = oldId d
  · have hid : idField ∉ changes.map Prod.fst := fun hmem => h hmem hsame
    refine ⟨addresses_stage hnames hid, ?_⟩
    rw [stage_of_eq hsame, patchDocument_eq]
    exact hasDistinctNames_foldl_insert (hasDistinctNames_empty.insert _ _) _
  · constructor
    · rw [stage_of_ne hsame]
      exact addresses_rebuiltDocument hnames _ _
    · rw [stage_of_ne hsame]
      exact hasDistinctNames_rebuiltDocument hnames _ _

/-- Contents that are tidy and have no more documents than other ones. -/
structure NoLarger (c' c : Contents) : Prop where
  tidy : Tidy c'.documents
  length_le : c'.documents.length ≤ c.documents.length

theorem NoLarger.trans (h : NoLarger c'' c') (h' : NoLarger c' c) : NoLarger c'' c :=
  ⟨h.tidy, h.length_le.trans h'.length_le⟩

theorem notMem_deletions_stage (hid : id ∉ ds.map oldId) :
    id ∉ deletions (ds.map (stage plan changes)) := by
  rw [deletions_map_stage]
  exact fun hmem => hid ((List.filter_sublist.map oldId).subset hmem)

/-- A group leaves what is found under other identities than those of its matches. -/
theorem isSome_find_applyGroup_stage (hsettles : ∀ d ∈ ds, Settles plan changes d)
    (hid : id ∉ ds.map oldId) (hfound : (c.find id).isSome = true) :
    ((applyGroup c (ds.map (stage plan changes))).find id).isSome = true := by
  rw [applyGroup, List.map_map]
  refine isSome_find_foldl_accept (g := newId plan changes) (fun d hd => (hsettles d hd).addresses)
    ?_
  rwa [find_discard, if_neg (notMem_deletions_stage hid)]

/-- The documents that a group adds take the places of those that it deletes. -/
theorem length_applyGroup_stage_le (hsettles : ∀ d ∈ ds, Settles plan changes d)
    (hnodup : (ds.map oldId).Nodup) (hfound : ∀ d ∈ ds, (c.find (oldId d)).isSome = true) :
    (applyGroup c (ds.map (stage plan changes))).documents.length ≤ c.documents.length := by
  have hdeletions : deletions (ds.map (stage plan changes)) =
      (ds.filter fun d => newId plan changes d ≠ oldId d).map oldId := deletions_map_stage ds
  have hdeleted : (c.discard (deletions (ds.map (stage plan changes)))).documents.length +
      (deletions (ds.map (stage plan changes))).length ≤ c.documents.length := by
    refine length_discard_le ?_ ?_
    · rw [hdeletions]
      exact hnodup.sublist (List.filter_sublist.map oldId)
    · rw [hdeletions]
      intro id hid
      obtain ⟨d, hd, rfl⟩ := List.mem_map.1 hid
      exact hfound d (List.mem_of_mem_filter hd)
  have hadded := length_foldl_accept_le (f := Staged.write ∘ stage plan changes)
    (c := c.discard (deletions (ds.map (stage plan changes)))) fun d hd => (hsettles d hd).addresses
  -- A match that stays is found: no match of its identity has moved.
  have hmoved : (ds.countP fun d => ((c.discard (deletions (ds.map (stage plan changes)))).find
      (newId plan changes d)).isNone) ≤ (deletions (ds.map (stage plan changes))).length := by
    rw [hdeletions, List.length_map, ← List.countP_eq_length_filter]
    refine List.countP_mono_left fun d hd hnone => ?_
    rw [decide_eq_true_eq]
    intro hsame
    have hkept : oldId d ∉ (ds.filter fun d => newId plan changes d ≠ oldId d).map oldId := by
      intro hmem
      obtain ⟨e, he, heq⟩ := List.mem_map.1 hmem
      obtain ⟨he, hmoves⟩ := List.mem_filter.1 he
      obtain rfl := List.inj_on_of_nodup_map hnodup he hd heq
      simp [hsame] at hmoves
    rw [hsame, find_discard, if_neg hkept, Option.isNone_iff_eq_none] at hnone
    have hsome := hfound d hd
    rw [hnone] at hsome
    cases hsome
  rw [applyGroup, List.map_map]
  omega

theorem noLarger_applyGroup_stage (hc : Tidy c.documents)
    (hsettles : ∀ d ∈ ds, Settles plan changes d) (hnodup : (ds.map oldId).Nodup)
    (hfound : ∀ d ∈ ds, (c.find (oldId d)).isSome = true) :
    NoLarger (applyGroup c (ds.map (stage plan changes))) c where
  tidy := by
    refine (hc.discard _).foldl_accept fun x hx => ?_
    rw [List.map_map] at hx
    obtain ⟨d, hd, rfl⟩ := List.mem_map.1 hx
    exact ⟨⟨_, (hsettles d hd).addresses⟩, (hsettles d hd).names⟩
  length_le := length_applyGroup_stage_le hsettles hnodup hfound

/-- Sending matches in groups leaves no more documents than there were. -/
theorem noLarger_sendAll_stage (batch : Nat) (waiting : List Document) (hc : Tidy c.documents)
    (hsettles : ∀ d ∈ waiting ++ ds, Settles plan changes d)
    (hnodup : ((waiting ++ ds).map oldId).Nodup)
    (hfound : ∀ d ∈ waiting ++ ds, (c.find (oldId d)).isSome = true) :
    NoLarger (sendAll batch (waiting.map (stage plan changes)) (ds.map (stage plan changes)) c)
      c := by
  induction ds generalizing waiting c with
  | nil =>
    rw [List.append_nil] at hsettles hnodup hfound
    exact noLarger_applyGroup_stage hc hsettles hnodup hfound
  | cons d ds ih =>
    have happend : waiting ++ d :: ds = waiting ++ [d] ++ ds := by simp
    have hstaged : waiting.map (stage plan changes) ++ [stage plan changes d] =
        (waiting ++ [d]).map (stage plan changes) := by simp
    rw [happend] at hsettles hnodup hfound
    rw [List.map_cons, sendAll, hstaged]
    split
    · rw [List.map_append] at hnodup
      obtain ⟨hfirst, hrest, hapart⟩ := List.nodup_append.1 hnodup
      have hsettled : ∀ e ∈ waiting ++ [d], Settles plan changes e := fun e he =>
        hsettles e (List.mem_append_left _ he)
      have hgroup := noLarger_applyGroup_stage hc hsettled hfirst fun e he =>
        hfound e (List.mem_append_left _ he)
      refine NoLarger.trans (ih [] hgroup.tidy
        (fun e he => hsettles e (List.mem_append_right _ he)) hrest fun e he => ?_) hgroup
      refine isSome_find_applyGroup_stage hsettled (fun hmem => ?_)
        (hfound e (List.mem_append_right _ he))
      exact hapart _ hmem _ (List.mem_map_of_mem he) rfl
    · exact ih _ hc hsettles hnodup hfound

/-! ## Pairs -/

variable {w : World Memory} {r : UpdateReport} {p p' : Progress Memory} {pair other : Pair}
  {pairs : List Pair}

/-- A pair that assigns the identity only to documents whose identity changes otherwise. -/
def Pair.Spares (pair : Pair) (plan : Plan) (condition : Condition) (c : Contents) : Prop :=
  idField ∈ pair.changes.map Prod.fst →
    ∀ d ∈ reached c condition pair.params, newId plan pair.changes d ≠ oldId d

/-- It is a pair's turn: those before it have been carried out, and the collection of the plan has
the contents `c`. -/
def AtTurn (plan : Plan) (condition : Condition) (p : Progress Memory) (pairs : List Pair)
    (pair : Pair) (c : Contents) : Prop :=
  ∃ done rest p', pairs = done ++ pair :: rest ∧
    (runPairs Memory.service plan condition done).run p = (.ok (), p') ∧
    p'.world.store.collections.get? plan.collection = some c

theorem atTurn_head (hcontents : p.world.store.collections.get? plan.collection = some c) :
    AtTurn plan condition p (pair :: pairs) pair c :=
  ⟨[], pairs, p, rfl, rfl, hcontents⟩

theorem AtTurn.cons (hrun : (runPair Memory.service plan condition pair).run p = (.ok (), p'))
    (h : AtTurn plan condition p' pairs other c) :
    AtTurn plan condition p (pair :: pairs) other c := by
  obtain ⟨done, rest, p'', rfl, hdone, hcontents⟩ := h
  refine ⟨pair :: done, rest, p'', rfl, ?_, hcontents⟩
  rw [runPairs, run_bind hrun, hdone]

/-- Only pairs of the list have a turn. -/
theorem AtTurn.mem (h : AtTurn plan condition p pairs pair c) : pair ∈ pairs := by
  obtain ⟨done, rest, -, rfl, -⟩ := h
  simp

/-- A turn is that of the first pair, or it comes after the first pair has been carried out. -/
theorem AtTurn.head_or_tail (h : AtTurn plan condition p (pair :: pairs) other c) :
    (other = pair ∧ p.world.store.collections.get? plan.collection = some c) ∨
      ∃ p', (runPair Memory.service plan condition pair).run p = (.ok (), p') ∧
        AtTurn plan condition p' pairs other c := by
  obtain ⟨done, rest, p'', heq, hdone, hcontents⟩ := h
  cases done with
  | nil =>
    obtain ⟨rfl, rfl⟩ := List.cons.inj heq
    obtain ⟨-, rfl⟩ := Prod.mk.inj hdone
    exact .inl ⟨rfl, hcontents⟩
  | cons first done =>
    obtain ⟨rfl, rfl⟩ := List.cons.inj heq
    rw [runPairs] at hdone
    cases hrun : (runPair Memory.service plan condition pair).run p with
    | mk result p' =>
      cases result with
      | error e =>
        rw [run_bind_error hrun] at hdone
        cases hdone
      | ok _ =>
        rw [run_bind hrun] at hdone
        exact .inr ⟨p', rfl, done, rest, p'', rfl, hdone, hcontents⟩

/-- What a pair reaches is found, once each. -/
theorem found_of_mem_reached (hc : Keyed c.documents) (hd : d ∈ reached c condition params) :
    c.find (oldId d) = some d :=
  hc.find_eq (mem_of_mem_reached hd) (getText?_eq_oldId hc (mem_of_mem_reached hd))

theorem noLarger_sendAll_reached (hc : Tidy c.documents) (hpair : pair.Spares plan condition c) :
    NoLarger (sendAll plan.updateBatch []
      ((reached c condition pair.params).map (stage plan pair.changes)) c) c := by
  refine noLarger_sendAll_stage plan.updateBatch [] hc (fun d hd => ?_) ?_ fun d hd => ?_
  · exact settles_of_ne (hc.names d (mem_of_mem_reached hd)) fun hid => hpair hid d hd
  · exact (nodup_map_oldId hc.keyed).sublist ((reached_sublist c condition pair.params).map oldId)
  · rw [found_of_mem_reached hc.keyed hd]
    rfl

/-- What holds after the first pair, and after the pairs behind it if they get their turns, holds
after all of them. -/
theorem exists_runPairs_cons {P : Contents → Prop} {result : Except StoreError Unit}
    {c₁ : Contents} {r₁ : UpdateReport}
    (hrun : (runPair Memory.service plan condition pair).run ⟨w, r⟩ =
      (result, ⟨withContents plan w c₁, r₁⟩)) (hfirst : P c₁)
    (hrest : result = .ok () → ∃ result c' r',
      (runPairs Memory.service plan condition pairs).run ⟨withContents plan w c₁, r₁⟩ =
        (result, ⟨withContents plan (withContents plan w c₁) c', r'⟩) ∧ P c') :
    ∃ result c' r', (runPairs Memory.service plan condition (pair :: pairs)).run ⟨w, r⟩ =
      (result, ⟨withContents plan w c', r'⟩) ∧ P c' := by
  rw [runPairs]
  cases result with
  | error e =>
    rw [run_bind_error hrun]
    exact ⟨.error e, c₁, r₁, rfl, hfirst⟩
  | ok _ =>
    obtain ⟨result, c', r', hrest, hlast⟩ := hrest rfl
    rw [run_bind hrun]
    exact ⟨result, c', r', by rw [hrest, withContents_withContents], hlast⟩

/-- What every pair keeps at its turn holds of the contents that a list of pairs leaves, also when
it fails. -/
theorem runPairs_contents {P : Contents → Prop} (hkeyed : ∀ c, P c → Keyed c.documents)
    (hinsert : ∀ pair ∈ pairs, pair.insert = none) (hopen : w.store.check = .ok ())
    (hcontents : w.store.collections.get? plan.collection = some c) (h : P c)
    (hstep : ∀ pair c', AtTurn plan condition ⟨w, r⟩ pairs pair c' → P c' →
      P (sendAll plan.updateBatch []
        ((reached c' condition pair.params).map (stage plan pair.changes)) c')) :
    ∃ result c' r', (runPairs Memory.service plan condition pairs).run ⟨w, r⟩ =
      (result, ⟨withContents plan w c', r'⟩) ∧ P c' := by
  induction pairs generalizing w r c with
  | nil => exact ⟨.ok (), c, r, by rw [withContents_self hcontents]; rfl, h⟩
  | cons pair pairs ih =>
    rw [List.forall_mem_cons] at hinsert
    obtain ⟨result, r₁, hrun⟩ :=
      run_runPair pair hinsert.1 r hopen hcontents (hkeyed c h) condition
    have hfirst := hstep pair c (atTurn_head hcontents) h
    exact exists_runPairs_cons hrun hfirst fun hok =>
      ih (w := withContents plan w _) (r := r₁) hinsert.2 hopen (get?_withContents plan w _) hfirst
        fun pair c' hturn => hstep pair c' (hturn.cons (hok ▸ hrun))

/-- Pairs leave no more documents than there were when each one spares, at its turn, what it reaches
from a change of the identity alone. -/
theorem noLarger_runPairs (hinsert : ∀ pair ∈ pairs, pair.insert = none)
    (hopen : w.store.check = .ok ())
    (hcontents : w.store.collections.get? plan.collection = some c) (hc : Tidy c.documents)
    (hpairs : ∀ pair c', AtTurn plan condition ⟨w, r⟩ pairs pair c' →
      pair.Spares plan condition c') :
    ∃ result c' r', (runPairs Memory.service plan condition pairs).run ⟨w, r⟩ =
      (result, ⟨withContents plan w c', r'⟩) ∧ NoLarger c' c :=
  runPairs_contents (P := fun c' => NoLarger c' c) (fun _ h => h.tidy.keyed) hinsert hopen hcontents
    ⟨hc, le_rfl⟩ fun pair c' hturn h =>
      (noLarger_sendAll_reached h.tidy (hpairs pair c' hturn)).trans h

/-! ## Changes of the identity -/

/-- A change of the identity takes the place of the identity in a patch. -/
theorem exists_get?_patchDocument (hid : idField ∈ changes.map Prod.fst) (id : String) :
    ∃ v : Stored, (patchDocument id changes).get? idField = some v.mark := by
  induction changes using List.reverseRecOn with
  | nil => cases hid
  | append_singleton changes change ih =>
    obtain ⟨name, v⟩ := change
    have hlast : patchDocument id (changes ++ [(name, v)]) =
        (patchDocument id changes).insert name v.toStored.mark := by
      simp [patchDocument]
    rw [hlast, get?_insert]
    split
    · exact ⟨v.toStored, rfl⟩
    · rename_i hname
      rw [List.map_append, List.mem_append] at hid
      exact ih (hid.resolve_right fun hmem => hname (by simpa using hmem))

/-- Unless the text of a marker is an identity, such a patch adds a row. -/
theorem length_accept_patchDocument (hid : idField ∈ changes.map Prod.fst)
    (hmarkers : ∀ v : Stored, c.find v.mark.plain = none) (id : String) :
    (c.accept (patchDocument id changes)).documents.length = c.documents.length + 1 := by
  obtain ⟨v, hv⟩ := exists_get?_patchDocument hid id
  exact length_accept_of_find_none hv (hmarkers v)

theorem length_lt_patchAll (hid : idField ∈ changes.map Prod.fst)
    (hmarkers : ∀ v : Stored, c.find v.mark.plain = none) (hne : ds ≠ []) :
    c.documents.length < (patchAll changes ds c).documents.length := by
  obtain ⟨d, ds, rfl⟩ := List.exists_cons_of_ne_nil hne
  have hfirst := length_accept_patchDocument hid hmarkers (oldId d)
  have hrest := length_le_foldl_accept (ds.map fun d => patchDocument (oldId d) changes)
    (c.accept (patchDocument (oldId d) changes))
  rw [patchAll_cons, patchAll]
  omega

/-- Patches of documents that are there bring no new identity. -/
theorem find_patchAll_eq_none (hid : idField ∉ changes.map Prod.fst)
    (hds : ∀ d ∈ ds, (c.find (oldId d)).isSome = true) (hnone : c.find id = none) :
    (patchAll changes ds c).find id = none := by
  induction ds generalizing c with
  | nil => exact hnone
  | cons d ds ih =>
    rw [List.forall_mem_cons] at hds
    have hpatch := addresses_patchDocument hid (oldId d)
    refine ih (fun e he => isSome_find_accept hpatch (hds.2 e he)) ?_
    rw [find_accept hpatch, if_neg, hnone]
    rintro rfl
    rw [hnone] at hds
    cases hds.1

/-! ## Patches alone -/

section Patches

variable (hrotating : plan.rotating = []) (r : UpdateReport) (hopen : w.store.check = .ok ())
  (hcontents : w.store.collections.get? plan.collection = some c)

include hopen hcontents

theorem length_le_flush {xs : List Staged} (hdeletions : deletions xs = [])
    (hids : ∀ x ∈ xs, (x.write.get? idField).isSome = true) :
    ∃ c' r', (flush Memory.service plan (pendingOf xs)).run ⟨w, r⟩ =
        (.ok (), ⟨withContents plan w c', r'⟩) ∧
      c.documents.length ≤ c'.documents.length := by
  obtain ⟨flushes, hflush⟩ := flush_memory r hopen hcontents hids
  refine ⟨_, _, hflush, ?_⟩
  rw [applyGroup, hdeletions, discard_nil]
  exact length_le_foldl_accept _ c

include hrotating

/-- Matches that are patched are sent without a deletion, up to the first one without an
identity. -/
theorem length_le_stageMatches (changes : Changes) (ds : List Document) {xs : List Staged}
    (hdeletions : deletions xs = []) (hids : ∀ x ∈ xs, (x.write.get? idField).isSome = true) :
    ∃ result c' r', (stageMatches Memory.service plan changes ds (pendingOf xs) >>=
        flush Memory.service plan).run ⟨w, r⟩ = (result, ⟨withContents plan w c', r'⟩) ∧
      c.documents.length ≤ c'.documents.length := by
  induction ds generalizing xs w r c with
  | nil =>
    obtain ⟨c', r', hflush, hle⟩ := length_le_flush r hopen hcontents hdeletions hids
    exact ⟨_, c', r', hflush, hle⟩
  | cons d ds ih =>
    cases hid : (d.get? idField).isSome with
    | false =>
      obtain ⟨e, hrun⟩ := run_stageMatches_cons_error Memory.service ds xs
        (flush Memory.service plan) ⟨w, r⟩ hid
      exact ⟨.error e, c, r, by rw [hrun, withContents_self hcontents], le_rfl⟩
    | true =>
      have hdeletions' : deletions (xs ++ [stage plan changes d]) = [] := by
        rw [deletions_append, hdeletions, stage_of_rotating_nil hrotating]
        rfl
      have hids' : ∀ x ∈ xs ++ [stage plan changes d], (x.write.get? idField).isSome = true := by
        intro x hx
        rcases List.mem_append.1 hx with hx | hx
        · exact hids x hx
        · rw [List.mem_singleton.1 hx]
          exact isSome_stage plan changes d
      rw [run_stageMatches_cons _ _ _ _ _ hid]
      split
      · obtain ⟨c₁, r₁, hflush, hfirst⟩ := length_le_flush r hopen hcontents hdeletions' hids'
        obtain ⟨result, c', r', hrest, hle⟩ := ih (w := withContents plan w c₁) r₁ hopen
          (get?_withContents plan w c₁) (show deletions [] = [] from rfl) (by simp)
        rw [run_bind hflush]
        exact ⟨result, c', r', by rw [hrest, withContents_withContents], hfirst.trans hle⟩
      · exact ih r hopen hcontents hdeletions' hids'

theorem length_le_runPair (condition : Condition) (pair : Pair) (hinsert : pair.insert = none) :
    ∃ result c' r', (runPair Memory.service plan condition pair).run ⟨w, r⟩ =
        (result, ⟨withContents plan w c', r'⟩) ∧
      c.documents.length ≤ c'.documents.length := by
  obtain ⟨params, changes, insert⟩ := pair
  obtain rfl : insert = none := hinsert
  cases hcollected : collected c condition params with
  | error e =>
    rw [runPair_memory_error r hopen hcontents hcollected]
    exact ⟨.error e, c, r, by rw [withContents_self hcontents], le_rfl⟩
  | ok ds =>
    have hcollect : collectMatches Memory.service plan condition params w = (.ok ds, w) :=
      hcollected ▸ collectMatches_memory hopen hcontents condition params
    obtain ⟨result, c', r', hsent, hle⟩ := length_le_stageMatches hrotating
      { r with matched := r.matched + ds.length } hopen hcontents changes ds
      (show deletions [] = [] from rfl) (by simp)
    refine ⟨result, c', r', ?_, hle⟩
    rw [runPair, run_bind (run_act hcollect r), run_bind (run_count _ w r)]
    refine Eq.trans ?_ hsent
    cases ds <;> rfl

/-- When no key can change, pairs take no row away. -/
theorem length_le_runPairs (condition : Condition) (hinsert : ∀ pair ∈ pairs, pair.insert = none) :
    ∃ result c' r', (runPairs Memory.service plan condition pairs).run ⟨w, r⟩ =
        (result, ⟨withContents plan w c', r'⟩) ∧
      c.documents.length ≤ c'.documents.length := by
  induction pairs generalizing w r c with
  | nil => exact ⟨.ok (), c, r, by rw [withContents_self hcontents]; rfl, le_rfl⟩
  | cons pair pairs ih =>
    rw [List.forall_mem_cons] at hinsert
    obtain ⟨result, c₁, r₁, hrun, hfirst⟩ :=
      length_le_runPair hrotating r hopen hcontents condition pair hinsert.1
    refine exists_runPairs_cons (P := fun c' => c.documents.length ≤ c'.documents.length) hrun
      hfirst fun _ => ?_
    obtain ⟨result, c', r', hrest, hle⟩ := ih (w := withContents plan w c₁) r₁ hopen
      (get?_withContents plan w c₁) hinsert.2
    exact ⟨result, c', r', hrest, hfirst.trans hle⟩

/-- When no key can change, pairs that leave no more rows than there were assign the identity of
nothing that they reach. -/
theorem spares_of_length_le (condition : Condition) (hinsert : ∀ pair ∈ pairs, pair.insert = none)
    (hc : Tidy c.documents) (hmarkers : ∀ v : Stored, c.find v.mark.plain = none)
    (hle : ∀ result c' r', (runPairs Memory.service plan condition pairs).run ⟨w, r⟩ =
      (result, ⟨withContents plan w c', r'⟩) → c'.documents.length ≤ c.documents.length)
    (hturn : AtTurn plan condition ⟨w, r⟩ pairs pair c') : pair.Spares plan condition c' := by
  induction pairs generalizing w r c with
  | nil =>
    obtain ⟨done, rest, -, heq, -⟩ := hturn
    simp at heq
  | cons first pairs ih =>
    rw [List.forall_mem_cons] at hinsert
    obtain ⟨result, r₁, hrun⟩ := run_runPair first hinsert.1 r hopen hcontents hc.keyed condition
    rw [sendAll_of_rotating_nil hrotating] at hrun
    -- What comes after the first pair takes no row away, so the first pair adds none.
    have hfirst : (patchAll first.changes (reached c condition first.params) c).documents.length ≤
        c.documents.length := by
      obtain ⟨result, c₂, r₂, hall, hmore⟩ := exists_runPairs_cons
        (P := fun c' => (patchAll first.changes (reached c condition first.params) c).documents.length
          ≤ c'.documents.length) hrun le_rfl fun _ => length_le_runPairs hrotating
            (w := withContents plan w _) r₁ hopen (get?_withContents plan w _) condition hinsert.2
      exact hmore.trans (hle result c₂ r₂ hall)
    have hspares : idField ∈ first.changes.map Prod.fst →
        reached c condition first.params = [] := fun hid => by
      by_contra hne
      exact absurd (length_lt_patchAll hid hmarkers hne) (not_lt.2 hfirst)
    rcases hturn.head_or_tail with ⟨rfl, hcontents'⟩ | ⟨p', hrun', hturn'⟩
    · obtain rfl := Option.some.inj (hcontents.symm.trans hcontents')
      intro hid d hd
      rw [hspares hid] at hd
      cases hd
    · rw [hrun] at hrun'
      obtain ⟨rfl, rfl⟩ := Prod.mk.inj hrun'
      have hnames : NoLarger (sendAll plan.updateBatch []
          ((reached c condition first.params).map (stage plan first.changes)) c) c :=
        noLarger_sendAll_reached hc fun hid d hd => by
          rw [hspares hid] at hd
          cases hd
      rw [sendAll_of_rotating_nil hrotating] at hnames
      refine ih (w := withContents plan w _) r₁ hopen (get?_withContents plan w _) hinsert.2
        hnames.tidy (fun v => ?_) (fun result c₂ r₂ hrest => ?_) hturn'
      · by_cases hid : idField ∈ first.changes.map Prod.fst
        · rw [hspares hid]
          exact hmarkers v
        · refine find_patchAll_eq_none hid (fun d hd => ?_) (hmarkers v)
          rw [found_of_mem_reached hc.keyed hd]
          rfl
      · rw [withContents_withContents] at hrest
        have hall := hle result c₂ r₂ (by rw [runPairs, run_bind hrun, hrest])
        have hmore := length_le_foldl_accept
          ((reached c condition first.params).map fun d => patchDocument (oldId d) first.changes) c
        exact hall.trans hmore

end Patches

end Reconcile

/-! ## Calls -/

namespace Table

variable {t : Table} {condition : Condition} {sets : List Bindings} {changes : List Changes}
  {pairs : List Pair} {w : World Memory} {c : Contents}

/-- The number of rows after an update. -/
def rowsAfter (t : Table) (condition : Condition) (sets : List Bindings) (changes : List Changes)
    (w : World Memory) : Nat :=
  ((t.update Memory.service condition sets changes w).2.store.documents t.collection.name).length

/-- The rows after an update are those that its pairs leave. -/
theorem rowsAfter_eq (hconnected : t.isConnected = true)
    (hpairs : makePairs sets changes none = .ok pairs) {result : Except StoreError Unit}
    {c' : Contents} {r' : UpdateReport}
    (hrun : (runPairs Memory.service (planFor t changes) condition pairs).run ⟨w, .empty⟩ =
      (result, ⟨withContents (planFor t changes) w c', r'⟩)) :
    t.rowsAfter condition sets changes w = c'.documents.length := by
  have hall : (runAll Memory.service t condition sets changes none w).2.store =
      (withContents (planFor t changes) w c').store := by
    simp only [runAll, hpairs, hrun]
  have hcontents : (withContents (planFor t changes) w c').store.collections.get?
      t.collection.name = some c' := get?_withContents (planFor t changes) w c'
  rw [rowsAfter, store_update, if_pos hconnected, hall, documents_of_get? hcontents]

/-- An update adds no row when every pair that assigns the identity reaches, at its turn, only rows
whose identity changes otherwise.  When the first list of changes assigns no key, and no identity is
the text of a marker, it adds a row exactly when some pair assigns the identity of anything. -/
theorem length_update_le (hconnected : t.isConnected = true) (hopen : w.store.check = .ok ())
    (hcontents : w.store.collections.get? t.collection.name = some c)
    (hkeyed : Keyed c.documents) (hnames : ∀ d ∈ c.documents, d.HasDistinctNames)
    (hpairs : makePairs sets changes none = .ok pairs) (condition : Condition) :
    ((∀ pair c', AtTurn (planFor t changes) condition ⟨w, .empty⟩ pairs pair c' →
        pair.Spares (planFor t changes) condition c') →
      t.rowsAfter condition sets changes w ≤ c.documents.length) ∧
    (rotatingKeys t.layout changes = [] → (∀ v : Stored, c.find v.mark.plain = none) →
      (t.rowsAfter condition sets changes w ≤ c.documents.length ↔
        ∀ pair c', AtTurn (planFor t changes) condition ⟨w, .empty⟩ pairs pair c' →
          idField ∈ pair.changes.map Prod.fst → reached c' condition pair.params = [])) := by
  have hinsert := insert_of_makePairs hpairs
  have hsafe : (∀ pair c', AtTurn (planFor t changes) condition ⟨w, .empty⟩ pairs pair c' →
      pair.Spares (planFor t changes) condition c') →
        t.rowsAfter condition sets changes w ≤ c.documents.length := fun hspares => by
    obtain ⟨result, c', r', hrun, hle⟩ :=
      noLarger_runPairs hinsert hopen hcontents ⟨hkeyed, hnames⟩ hspares
    rw [rowsAfter_eq hconnected hpairs hrun]
    exact hle.length_le
  refine ⟨hsafe, fun hrotating hmarkers => ⟨fun hle pair c' hturn hid => ?_, fun hnothing => ?_⟩⟩
  · have hspares := spares_of_length_le hrotating .empty hopen hcontents condition hinsert
      ⟨hkeyed, hnames⟩ hmarkers
      (fun result c' r' hrun => rowsAfter_eq hconnected hpairs hrun ▸ hle) hturn hid
    refine List.eq_nil_iff_forall_not_mem.2 fun d hd => hspares d hd ?_
    simp [newId, planFor, hrotating]
  · refine hsafe fun pair c' hturn hid d hd => ?_
    rw [hnothing pair c' hturn hid] at hd
    cases hd

/-- A connected table whose rows have texts for identities. -/
def noteTable : Table :=
  { name := "notes"
    layout := ⟨[⟨"id", .string⟩, ⟨"text", .string⟩], none⟩
    options := {}
    collection := ⟨"notes", "", 1, 1, "", "", .ofKey none⟩
    connected := true
    schema := some (.ofKey none) }

/-- Two notes. -/
def noteContents : Contents :=
  ⟨true, none, [⟨[("id", .text "a"), ("text", .text "x"), ("_version_", .int64 1)]⟩,
    ⟨[("id", .text "b"), ("text", .text "y"), ("_version_", .int64 2)]⟩], 2⟩

/-- A store with the collection of the notes. -/
def noteWorld : World Memory := ⟨Memory.empty.setContents "notes" noteContents, 0, []⟩

theorem length_update_le_noteWorld :
    let sets : List Bindings := [.empty, .empty]
    let changes : List Changes := [[("text", .text "z")], [("text", .null)]]
    let pairs : List Pair :=
      [⟨.empty, [("text", .text "z")], none⟩, ⟨.empty, [("text", .null)], none⟩]
    Keyed noteContents.documents ∧ (∀ d ∈ noteContents.documents, d.HasDistinctNames) ∧
      makePairs sets changes none = .ok pairs ∧
      (∀ v : Stored, noteContents.find v.mark.plain = none) ∧
      noteTable.rowsAfter .all sets changes noteWorld ≤ noteContents.documents.length ∧
      (noteTable.rowsAfter .all sets changes noteWorld ≤ noteContents.documents.length ↔
        ∀ pair c', AtTurn (planFor noteTable changes) .all ⟨noteWorld, .empty⟩ pairs pair c' →
          idField ∈ pair.changes.map Prod.fst → reached c' .all pair.params = []) := by
  intro sets changes pairs
  have hkeyed : Keyed noteContents.documents := ⟨by decide +kernel, by decide +kernel⟩
  have hnames : ∀ d ∈ noteContents.documents, d.HasDistinctNames := by decide +kernel
  have hpairs : makePairs sets changes none = .ok pairs := rfl
  -- The text of a marker is longer than these identities.
  have hshort : ∀ d ∈ noteContents.documents, ∃ id, d.getText? idField = some id ∧ id.length = 1 :=
    List.forall_mem_cons.2 ⟨⟨"a", by decide +kernel, by decide +kernel⟩,
      List.forall_mem_singleton.2 ⟨"b", by decide +kernel, by decide +kernel⟩⟩
  have hmarkers : ∀ v : Stored, noteContents.find v.mark.plain = none := by
    refine fun v => List.find?_eq_none.2 fun d hd hhas => ?_
    obtain ⟨id, hid, hlength⟩ := hshort d hd
    have hsame : id = v.mark.plain := Option.some.inj (hid.symm.trans (hasId_eq_true_iff.1 hhas))
    have hlong := congrArg String.length hsame
    have hend : " \x7d".length = 2 := by decide +kernel
    simp [Stored.mark, Stored.plain, Stored.display, hlength, hend] at hlong
  have hcontents : noteWorld.store.collections.get? noteTable.collection.name =
      some noteContents := get?_setContents _ _ _
  obtain ⟨hsafe, hexact⟩ := length_update_le rfl rfl hcontents hkeyed hnames hpairs .all
  have hid : ∀ pair ∈ pairs, idField ∉ pair.changes.map Prod.fst := by decide +kernel
  exact ⟨hkeyed, hnames, hpairs, hmarkers,
    hsafe fun pair c' hturn hmem => absurd hmem (hid pair hturn.mem),
    hexact (by decide +kernel) hmarkers⟩

/-- An update that assigns the identity adds a row for every row that it reaches. -/
theorem not_length_update_le_noteWorld :
    let changes : List Changes := [[("id", .text "c")]]
    noteTable.compileUpdateSet [("id", .constant (.text "c"))] =
        .ok ⟨[("id", .constant (.text "c"))]⟩ ∧
      UpdateSet.resolve ⟨[("id", .constant (.text "c"))]⟩ .empty = .ok [("id", .text "c")] ∧
      noteContents.documents.map (Document.getText? · idField) = [some "a", some "b"] ∧
      noteContents.documents.length = 2 ∧
      noteTable.rowsAfter .all [.empty] changes noteWorld = 4 := by
  decide +kernel

end Table

end SearchTable
