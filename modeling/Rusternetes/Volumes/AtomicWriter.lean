import Rusternetes.Framework.LTS
import Rusternetes.Framework.Table
import Rusternetes.Framework.Text

/-! # The Atomic Writer

    A volume's payload is written to a timestamped directory, to which the link `..data`
    is then swapped. For each first segment of a path the volume has a link into `..data`.
    A payload is written only if it differs from what `..data` shows.
-/

open AList List

namespace AtomicWriter

open LTS Framework

/-- A relative path, as the segments between its slashes. -/
abbrev Path := List String

/-- The files of a directory, by clean path, or a payload, by the paths it gives. -/
abbrev Tree (β : Type) := Table Path β

/-- Whether a segment is a name: the file system passes over the others. -/
def plain (seg : String) : Bool := seg ≠ "" ∧ seg ≠ "."

def clean (p : Path) : Path := p.filter plain

/-- Whether a path can be one of a file: it does not end with `/` or `/.`. -/
def ends (p : Path) : Bool := p.getLast?.any plain

/-- What a name of the target directory stands for; a link leads into `..data`. -/
inductive Entry where
  | link
  | file
  | dir
  deriving DecidableEq

structure Dir (β : Type) where
  /-- Where `..data` points. -/
  data : Option String := none
  /-- The timestamped directories. -/
  stamps : Table String (Tree β) := ∅
  /-- The other names. -/
  entries : Table String Entry := ∅

section

variable {β : Type}

/-- The files under `..data`. -/
def Dir.tree (d : Dir β) : Tree β := (d.data.bind d.stamps.lookup).getD ∅

/-- The file a user of the volume reads at a clean path. -/
def Dir.visible (d : Dir β) (p : Path) : Option β :=
  if p.head?.bind d.entries.lookup = some .link then d.tree.lookup p else none

/-- Some file of the tree has this first segment. -/
def Heads (t : Tree β) (seg : String) : Prop := ∃ p ∈ t.keys, p.head? = some seg

instance (t : Tree β) (seg : String) : Decidable (Heads t seg) :=
  inferInstanceAs (Decidable (∃ p ∈ t.keys, p.head? = some seg))

def payload_differs [DecidableEq β] (payload old : Tree β) : Bool :=
  payload.keys.any (fun rel => !ends rel || old.lookup (clean rel) != payload.lookup rel) ||
    -- only the names at the top are looked at
    old.keys.any fun p => !payload.keys.any fun rel => rel.head? == p.head?

/-- The loop that writes the files. A path that leads through a file, or to a directory,
    cannot be written; of two paths to one file the later is. -/
def write_files : List ((_ : Path) × β) → Tree β → Option (Tree β)
  | [], t => some t
  | f :: fs, t =>
    let dest := clean f.1
    if !ends f.1 || t.keys.any fun p => p != dest && (p.isPrefixOf dest || dest.isPrefixOf p) then
      none
    else write_files fs (t.insert dest f.2)

def create_link (entries : Table String Entry) (rel : Path) : Table String Entry :=
  match rel.head? with
  | none => entries
  | some seg => if entries.lookup seg = some .link then entries else entries.insert seg .link

/-- Removing the names no longer wanted; `remove_file` fails on a directory. -/
def prune (payload : Tree β) (entries : Table String Entry) : Table String Entry :=
  entries.retain fun name e =>
    Text.starts_with name ".." || decide (Heads payload name) || e == .dir

def links (payload : Tree β) (d : Dir β) : Dir β :=
  { d with entries := prune payload (payload.keys.foldl create_link d.entries) }

/-- A call; `none` where it fails. `ts_name` is the name of a new timestamped directory. -/
def write_projected_payload [DecidableEq β] (d : Dir β) (ts_name : String) (payload : Tree β) :
    Option (Dir β) :=
  if d.data = none ∨ payload_differs payload d.tree = true then
    if ts_name ∈ d.stamps then none
    else (write_files payload.entries ∅).map fun t => links payload
      { d with
        data := some ts_name
        stamps := (d.data.elim d.stamps fun old => d.stamps.erase old).insert ts_name t }
  else some (links payload d)

/-- A path is relative, does not lead up, is one of a file, and begins with a name that is
    not internal. One that begins with `./` makes a call fail at its link. -/
def ValidPath (p : Path) : Prop :=
  (∃ seg, p.head? = some seg ∧ plain seg = true ∧ Text.starts_with seg ".." = false) ∧
    ends p = true ∧ ".." ∉ p

def Valid (payload : Tree β) : Prop := ∀ p ∈ payload.keys, ValidPath p

/-- Paths to one file give it the same bytes. -/
def Agrees (payload : Tree β) : Prop :=
  ∀ rel ∈ payload.keys, ∀ rel' ∈ payload.keys, clean rel = clean rel' →
    payload.lookup rel = payload.lookup rel'

/-- The calls on one directory. -/
def system [DecidableEq β] : System (Dir β) (String × Tree β) where
  init d := d = {}
  step d l d' := Valid l.2 ∧ write_projected_payload d l.1 l.2 = some d'

def Includes (shown : Path → Option β) (payload : Tree β) : Prop :=
  ∀ rel ∈ payload.keys, shown (clean rel) = payload.lookup rel

/-- The files shown are exactly those of the payload. -/
def Shows (shown : Path → Option β) (payload : Tree β) : Prop :=
  Includes shown payload ∧ ∀ p, (shown p).isSome = true → ∃ rel ∈ payload.keys, clean rel = p

/-- Everything in the payload is shown, under the same names, beside files that are not. -/
def Leftover (shown : Path → Option β) (payload : Tree β) : Prop :=
  Includes shown payload ∧
    (∀ p, (shown p).isSome = true → ∃ rel ∈ payload.keys, rel.head? = p.head?) ∧
    ∃ p, (shown p).isSome = true ∧ ∀ rel ∈ payload.keys, clean rel ≠ p

/-- `..data` leads to a directory that holds exactly the payload. -/
def Dir.Holds (d : Dir β) (payload : Tree β) : Prop :=
  ∃ t, d.data.bind d.stamps.lookup = some t ∧ Shows t.lookup payload

/-- A call is to write, and to a directory that is not there yet. -/
def Writes [DecidableEq β] (d : Dir β) (ts_name : String) (payload : Tree β) : Prop :=
  (d.data = none ∨ payload_differs payload d.tree = true) ∧ ts_name ∉ d.stamps

/-- What a call passes through: where it may be cut short, by an error or a crash, or return. -/
inductive Cut [DecidableEq β] (d : Dir β) (ts_name : String) (payload : Tree β) : Dir β → Prop
  | begun : Cut d ts_name payload d
  /-- Nothing is to be written; names are linked or removed. -/
  | linked (hsame : ¬(d.data = none ∨ payload_differs payload d.tree = true))
      (entries : Table String Entry) :
      Cut d ts_name payload { d with entries }
  /-- Some of the files are written, the last of them perhaps in part. -/
  | written (t : Tree β) (hw : Writes d ts_name payload) :
      Cut d ts_name payload { d with stamps := d.stamps.insert ts_name t }
  /-- `..data` is swapped, and `old` is left of the directory it led to. -/
  | swapped {t : Tree β} (hw : Writes d ts_name payload)
      (hfiles : write_files payload.entries ∅ = some t) (old : Option (Tree β))
      (entries : Table String Entry) :
      Cut d ts_name payload
        { data := some ts_name
          stamps := (d.data.elim d.stamps fun name => d.stamps.set name old).insert ts_name t
          entries }

theorem mem_keys_iff {t : Tree β} {p : Path} : p ∈ t.keys ↔ (t.lookup p).isSome = true :=
  mem_keys.symm.trans lookup_isSome.symm

theorem head?_clean {p : Path} (h : ValidPath p) : (clean p).head? = p.head? := by
  obtain ⟨⟨seg, hseg, hplain, -⟩, -⟩ := h
  cases p with
  | nil => cases hseg
  | cons s p =>
    cases hseg
    rw [clean, filter_cons_of_pos hplain]
    rfl

theorem lookup_write_files {fs : List ((_ : Path) × β)} {t t' : Tree β}
    (h : write_files fs t = some t') (p : Path) :
    (∀ f ∈ fs, clean f.1 ≠ p) ∧ t'.lookup p = t.lookup p ∨
      ∃ f ∈ fs, clean f.1 = p ∧ t'.lookup p = some f.2 := by
  induction fs generalizing t with
  | nil =>
    cases h
    exact .inl ⟨fun _ hf => absurd hf not_mem_nil, rfl⟩
  | cons f fs ih =>
    rw [write_files] at h
    split at h
    · cases h
    rcases ih h with ⟨hnot, heq⟩ | ⟨g, hg, hclean, heq⟩
    · by_cases hp : p = clean f.1
      · subst hp
        exact .inr ⟨f, .head _, rfl, heq.trans (lookup_insert _)⟩
      · refine .inl ⟨forall_mem_cons.mpr ⟨fun heq => hp heq.symm, hnot⟩, ?_⟩
        rw [heq, lookup_insert_ne hp]
    · exact .inr ⟨g, .tail _ hg, hclean, heq⟩

theorem lookup_create_links (l : List Path) (entries : Table String Entry) (seg : String) :
    (l.foldl create_link entries).lookup seg =
      if ∃ p ∈ l, p.head? = some seg then some .link else entries.lookup seg := by
  induction l generalizing entries with
  | nil => simp
  | cons p l ih =>
    rw [foldl_cons, ih]
    have hone : (create_link entries p).lookup seg =
        if p.head? = some seg then some .link else entries.lookup seg := by
      unfold create_link
      cases hp : p.head? with
      | none => simp
      | some s =>
        by_cases hs : seg = s
        · subst hs
          by_cases hl : entries.lookup seg = some .link <;> simp [hl]
        · have hs' : ¬s = seg := fun heq => hs heq.symm
          by_cases hl : entries.lookup s = some .link <;>
            simp [hl, hs', lookup_insert_ne hs]
    rw [hone]
    by_cases hl : ∃ p ∈ l, p.head? = some seg <;> by_cases hp : p.head? = some seg <;>
      simp [hl, hp]

variable {payload : Tree β}

theorem mem_keys_of_entry {f : (_ : Path) × β} (hf : f ∈ payload.entries) :
    f.1 ∈ payload.keys ∧ payload.lookup f.1 = some f.2 :=
  ⟨mem_map_of_mem hf, mem_lookup_iff.mpr hf⟩

theorem written_iff {t : Tree β} (h : write_files payload.entries ∅ = some t) (p : Path) :
    (t.lookup p).isSome = true ↔ ∃ rel ∈ payload.keys, clean rel = p := by
  rcases lookup_write_files h p with ⟨hnot, heq⟩ | ⟨f, hf, hclean, heq⟩
  · rw [heq, lookup_empty]
    refine ⟨fun h => (by cases h), ?_⟩
    rintro ⟨rel, hrel, hclean⟩
    obtain ⟨f, hf, rfl⟩ := mem_map.mp hrel
    exact absurd hclean (hnot f hf)
  · rw [heq]
    exact ⟨fun _ => ⟨f.1, (mem_keys_of_entry hf).1, hclean⟩, fun _ => rfl⟩

theorem Includes.agrees {shown : Path → Option β} (h : Includes shown payload) : Agrees payload := by
  intro rel hrel rel' hrel' heq
  rw [← h rel hrel, heq, h rel' hrel']

/-- **What is written is the payload**, if its paths agree. -/
theorem shows_written {t : Tree β} (h : write_files payload.entries ∅ = some t) :
    Shows t.lookup payload ↔ Agrees payload := by
  refine ⟨fun hshows => hshows.1.agrees, fun hagrees => ⟨?_, fun p => (written_iff h p).mp⟩⟩
  intro rel hrel
  rcases lookup_write_files h (clean rel) with ⟨hnot, -⟩ | ⟨f, hf, hclean, heq⟩
  · obtain ⟨g, hg, rfl⟩ := mem_map.mp hrel
    exact absurd rfl (hnot g hg)
  · obtain ⟨hkey, hbytes⟩ := mem_keys_of_entry hf
    exact heq.trans (hbytes.symm.trans (hagrees f.1 hkey rel hrel hclean))

theorem payload_differs_eq_false [DecidableEq β] {old : Tree β} (hvalid : Valid payload) :
    payload_differs payload old = false ↔ Includes old.lookup payload ∧
      ∀ p ∈ old.keys, ∃ rel ∈ payload.keys, rel.head? = p.head? := by
  have hends : ∀ rel ∈ payload.keys, ends rel = true := fun rel hrel => (hvalid rel hrel).2.1
  simp +contextual [payload_differs, Includes, hends]

/-! ### What holds between calls -/

/-- The names are the links of the files under `..data`. -/
structure Settled (d : Dir β) : Prop where
  valid : ∀ p ∈ d.tree.keys, ∃ seg, p.head? = some seg ∧ Text.starts_with seg ".." = false
  names : ∀ seg e, d.entries.lookup seg = some e ↔ e = .link ∧ Heads d.tree seg

variable {d : Dir β}

/-- A user reads what is under `..data`. -/
theorem Settled.visible_eq (h : Settled d) : d.visible = d.tree.lookup := by
  funext p
  unfold Dir.visible
  split
  · rfl
  · rename_i hlink
    symm
    rw [lookup_eq_none]
    intro hp
    apply hlink
    obtain ⟨seg, hseg, _⟩ := h.valid p (mem_keys.mp hp)
    rw [hseg]
    exact (h.names seg .link).mpr ⟨rfl, p, mem_keys.mp hp, hseg⟩

theorem settled_links {d' : Dir β} (h : Settled d) (hentries : d'.entries = d.entries)
    (htree : ∀ p ∈ d'.tree.keys, ∃ seg, p.head? = some seg ∧ Text.starts_with seg ".." = false)
    (hheads : ∀ seg, Heads d'.tree seg ↔ Heads payload seg) :
    Settled (links payload d') := by
  refine ⟨htree, fun seg e => ?_⟩
  show (prune payload (payload.keys.foldl create_link d'.entries)).lookup seg = some e ↔
    e = .link ∧ Heads d'.tree seg
  rw [prune, Table.lookup_retain, lookup_create_links, hheads, hentries, Option.filter_eq_some_iff]
  by_cases hw : Heads payload seg
  · rw [if_pos (show ∃ p ∈ payload.keys, p.head? = some seg from hw)]
    simp [hw, eq_comm]
  · rw [if_neg (show ¬∃ p ∈ payload.keys, p.head? = some seg from hw), h.names]
    simp only [hw, and_false, iff_false, decide_false, Bool.or_false, not_and]
    rintro ⟨rfl, p, hp, hseg⟩
    obtain ⟨s, hs, hplain⟩ := h.valid p hp
    cases hs.symm.trans hseg
    simp [hplain]

/-- The first segments of the files are those of the paths that lead to them. -/
theorem heads_iff {t : Tree β} (hvalid : Valid payload)
    (h : ∀ p, (t.lookup p).isSome = true ↔ ∃ rel ∈ payload.keys, clean rel = p) (seg : String) :
    Heads t seg ↔ Heads payload seg := by
  constructor
  · rintro ⟨p, hp, hseg⟩
    obtain ⟨rel, hrel, rfl⟩ := (h p).mp (mem_keys_iff.mp hp)
    exact ⟨rel, hrel, (head?_clean (hvalid rel hrel)).symm.trans hseg⟩
  · rintro ⟨rel, hrel, hseg⟩
    exact ⟨clean rel, mem_keys_iff.mpr ((h _).mpr ⟨rel, hrel, rfl⟩),
      (head?_clean (hvalid rel hrel)).trans hseg⟩

theorem links_eq_self (h : Settled d) (hheads : ∀ seg, Heads d.tree seg ↔ Heads payload seg) :
    links payload d = d := by
  have hlinks : ∀ l : List Path, l ⊆ payload.keys → l.foldl create_link d.entries = d.entries := by
    intro l hl
    induction l with
    | nil => rfl
    | cons p l ih =>
      obtain ⟨hp, hl⟩ := cons_subset.mp hl
      have hsame : create_link d.entries p = d.entries := by
        unfold create_link
        cases hseg : p.head? with
        | none => rfl
        | some seg => exact if_pos ((h.names seg .link).mpr ⟨rfl, (hheads seg).mpr ⟨p, hp, hseg⟩⟩)
      rw [foldl_cons, hsame, ih hl]
  have hprune : prune payload d.entries = d.entries := by
    refine ext (filter_eq_self.mpr ?_)
    intro ⟨seg, e⟩ hmem
    have hname := (h.names seg e).mp (mem_lookup_iff.mpr hmem)
    simp [(hheads seg).mp hname.2]
  rw [links, hlinks _ (.refl _), hprune]

theorem Dir.Holds.tree (h : d.Holds payload) : Shows d.tree.lookup payload := by
  obtain ⟨t, ht, hshows⟩ := h
  rwa [Dir.tree, ht]

variable [DecidableEq β]

/-- A call that succeeds passes through to its end: the payload is written, or need not be, and
    the links are made. -/
theorem call_cases {d' : Dir β} {ts_name : String}
    (hcall : write_projected_payload d ts_name payload = some d') :
    Cut d ts_name payload d' ∧ ∃ dw, d' = links payload dw ∧ dw.entries = d.entries ∧
      ((∃ t, dw.data.bind dw.stamps.lookup = some t ∧ write_files payload.entries ∅ = some t) ∧
          (d.data = none ∨ payload_differs payload d.tree = true) ∧ dw.data ≠ none ∨
        dw = d ∧ d.data ≠ none ∧ payload_differs payload d.tree = false) := by
  unfold write_projected_payload at hcall
  split_ifs at hcall with hw hnew
  · obtain ⟨t, ht, rfl⟩ := Option.map_eq_some_iff.mp hcall
    exact ⟨.swapped ⟨hw, hnew⟩ ht none _, _, rfl, rfl,
      .inl ⟨⟨t, lookup_insert _, ht⟩, hw, Option.some_ne_none _⟩⟩
  · cases hcall
    obtain ⟨hdata, hsame⟩ := not_or.mp hw
    exact ⟨.linked hw _, d, rfl, rfl, .inr ⟨rfl, hdata, Bool.eq_false_iff.mpr hsame⟩⟩

/-- **A call** writes what the paths of the payload lead to, or leaves all as it is. -/
theorem call_spec {d' : Dir β} {ts_name : String} (h : Settled d) (hvalid : Valid payload)
    (hcall : write_projected_payload d ts_name payload = some d') :
    Settled d' ∧ ((Shows d'.tree.lookup payload ↔ Agrees payload) ∧ d'.data ≠ none ∧
        (d.data = none ∨ payload_differs payload d.tree = true) ∨
      d' = d ∧ d.data ≠ none ∧ payload_differs payload d.tree = false) := by
  obtain ⟨-, dw, rfl, hentries, ⟨⟨t, ht, hfiles⟩, hw, hdata⟩ | ⟨rfl, hdata, hsame⟩⟩ :=
    call_cases hcall
  · have htree : dw.tree = t := by rw [Dir.tree, ht]; rfl
    have hwritten := written_iff hfiles
    rw [← htree] at hwritten
    refine ⟨settled_links h hentries ?_ (heads_iff hvalid hwritten),
      .inl ⟨?_, hdata, hw⟩⟩
    · intro p hp
      obtain ⟨rel, hrel, rfl⟩ := (hwritten p).mp (mem_keys_iff.mp hp)
      obtain ⟨⟨seg, hseg, -, hup⟩, -⟩ := hvalid rel hrel
      exact ⟨seg, (head?_clean (hvalid rel hrel)).trans hseg, hup⟩
    · show Shows dw.tree.lookup payload ↔ _
      rw [htree]
      exact shows_written hfiles
  · obtain ⟨hfiles, hnames⟩ := (payload_differs_eq_false hvalid).mp hsame
    have hheads : ∀ seg, Heads dw.tree seg ↔ Heads payload seg := by
      refine fun seg => ⟨?_, ?_⟩
      · rintro ⟨p, hp, hseg⟩
        obtain ⟨rel, hrel, hhead⟩ := hnames p hp
        exact ⟨rel, hrel, hhead.trans hseg⟩
      · rintro ⟨rel, hrel, hseg⟩
        refine ⟨clean rel, ?_, (head?_clean (hvalid rel hrel)).trans hseg⟩
        rw [mem_keys_iff] at hrel ⊢
        exact (congrArg Option.isSome (hfiles rel (mem_keys_iff.mpr hrel))).trans hrel
    rw [links_eq_self h hheads]
    exact ⟨h, .inr ⟨rfl, hdata, hsame⟩⟩

omit [DecidableEq β] in
theorem Shows.not_leftover {shown : Path → Option β} (h : Shows shown payload) :
    ¬Leftover shown payload := by
  rintro ⟨-, -, p, hp, hextra⟩
  obtain ⟨rel, hrel, heq⟩ := h.2 p hp
  exact hextra rel hrel heq

theorem not_leftover (hvalid : Valid payload)
    (hw : d.data = none ∨ payload_differs payload d.tree = true) :
    ¬Leftover d.tree.lookup payload := by
  rintro ⟨hfiles, hnames, p, hp, -⟩
  rcases hw with hnone | hdiff
  · simp [Dir.tree, hnone] at hp
  · rw [(payload_differs_eq_false hvalid).mpr
      ⟨hfiles, fun p hp => hnames p (mem_keys_iff.mp hp)⟩] at hdiff
    cases hdiff

theorem shown_iff_not_leftover {t : Tree β} (hvalid : Valid payload)
    (hsame : payload_differs payload t = false) :
    Shows t.lookup payload ↔ ¬Leftover t.lookup payload := by
  obtain ⟨hfiles, hnames⟩ := (payload_differs_eq_false hvalid).mp hsame
  refine ⟨Shows.not_leftover, fun hnot => ⟨hfiles, fun p hp => ?_⟩⟩
  -- a file beside the payload would be left over
  by_contra hextra
  exact hnot ⟨hfiles, fun q hq => hnames q (mem_keys_iff.mpr hq), p, hp, by simpa using hextra⟩

theorem Shows.not_differs (hvalid : Valid payload) (h : Shows d.tree.lookup payload) :
    payload_differs payload d.tree = false := by
  refine (payload_differs_eq_false hvalid).mpr ⟨h.1, fun p hp => ?_⟩
  obtain ⟨rel, hrel, rfl⟩ := h.2 p (mem_keys_iff.mp hp)
  exact ⟨rel, hrel, (head?_clean (hvalid rel hrel)).symm⟩

/-- **Every run** of calls leaves the directory settled. -/
theorem settled_of_exec {tr : List (String × Tree β)} (h : Exec system tr d) : Settled d := by
  induction h with
  | init h0 =>
    obtain rfl := h0
    refine ⟨fun p hp => absurd hp not_mem_nil, fun seg e => ?_⟩
    simp [Heads, Dir.tree]
  | step _ hstep ih => exact (call_spec ih hstep.1 hstep.2).1

end

/-- **A volume shows its payload.** After any calls, a call shows exactly the payload if and
    only if its paths give no file two contents, and the volume was not showing the payload
    beside files that are not in it under first segments that are. A payload that is shown
    changes nothing, unless there is no `..data` yet. -/
theorem shows_payload_iff {β : Type} [DecidableEq β] {tr : List (String × Tree β)} {d : Dir β}
    (h : Exec system tr d) {ts_name : String} {payload : Tree β} (hvalid : Valid payload)
    {d' : Dir β} (hcall : write_projected_payload d ts_name payload = some d') :
    (Shows d'.visible payload ↔ Agrees payload ∧ ¬Leftover d.visible payload) ∧
      (Shows d.visible payload → (d' = d ↔ d.data ≠ none)) := by
  have hsettled := settled_of_exec h
  obtain ⟨hsettled', hcases⟩ := call_spec hsettled hvalid hcall
  rw [hsettled.visible_eq, hsettled'.visible_eq]
  rcases hcases with ⟨hshown, hdata, hw⟩ | ⟨rfl, hdata, hsame⟩
  · refine ⟨hshown.trans (and_iff_left (not_leftover hvalid hw)).symm, fun hshows => ?_⟩
    rcases hw with hnone | hdiff
    · refine iff_of_false (fun heq => hdata (heq ▸ hnone)) (not_not.mpr hnone)
    · rw [hshows.not_differs hvalid] at hdiff
      cases hdiff
  · have hagrees := ((payload_differs_eq_false hvalid).mp hsame).1.agrees
    exact ⟨(shown_iff_not_leftover hvalid hsame).trans (and_iff_right hagrees).symm,
      fun _ => iff_of_true rfl hdata⟩

namespace Sample

/-- One file in a subdirectory, and two. -/
def one : Tree Nat := (∅ : Tree Nat).insert ["a", "x"] 1

def two : Tree Nat := one.insert ["a", "y"] 2

theorem two_valid : Valid two := by
  unfold Valid ValidPath
  decide +kernel

end Sample

/-- A file that leaves a subdirectory in which another one stays is shown on. -/
theorem removed_file_still_shown : ∃ d d', Exec system [("..1", Sample.two)] d ∧
    write_projected_payload d "..2" Sample.one = some d' ∧
    d'.visible ["a", "y"] = some 2 ∧ ∀ rel ∈ Sample.one.keys, clean rel ≠ ["a", "y"] :=
  ⟨_, _, .step (.init rfl) ⟨Sample.two_valid, rfl⟩, rfl, by decide +kernel, by decide +kernel⟩

/-- A first payload is shown. -/
theorem first_payload_shown : ∃ d, write_projected_payload {} "..1" Sample.two = some d ∧
    Shows d.visible Sample.two := by
  refine ⟨_, rfl, (shows_payload_iff (.init rfl) Sample.two_valid rfl).1.mpr ⟨?_, ?_⟩⟩
  · unfold Agrees
    decide +kernel
  · rintro ⟨-, -, p, hp, -⟩
    simp [Dir.visible] at hp

/-! ### Calls that are cut short -/

section

variable {β : Type} [DecidableEq β] {d m : Dir β} {ts_name : String} {payload : Tree β}

/-- Until `..data` is swapped it leads to what it led to, and then to the payload. -/
theorem Cut.leads (h : Cut d ts_name payload m) (hagrees : Agrees payload)
    (hd : ∀ name, d.data = some name → name ∈ d.stamps) :
    m.data = d.data ∧ m.data.bind m.stamps.lookup = d.data.bind d.stamps.lookup ∨
      m.data ≠ d.data ∧ m.Holds payload := by
  have hnew : ts_name ∉ d.stamps → d.data ≠ some ts_name := fun hnot hdata => hnot (hd _ hdata)
  cases h with
  | begun | linked => exact .inl ⟨rfl, rfl⟩
  | written t hw =>
    refine .inl ⟨rfl, ?_⟩
    cases hdata : d.data with
    | none => rfl
    | some name =>
      have hne : name ≠ ts_name := fun heq => hnew hw.2 (hdata.trans (congrArg some heq))
      exact lookup_insert_ne hne
  | swapped hw hfiles =>
    exact .inr ⟨(hnew hw.2).symm, _, lookup_insert _, (shows_written hfiles).mpr hagrees⟩

/-- `..data` leads to the payload of the last call that swapped it. -/
structure Tracked (s : Dir β × Option (Tree β)) : Prop where
  leads : ∀ name, s.1.data = some name → name ∈ s.1.stamps
  none : s.2 = none → s.1.data = none
  some : ∀ previous, s.2 = some previous → s.1.Holds previous

end

end AtomicWriter
