import AppletBundle.Proofs.Entry.Manifest
import AppletBundle.Proofs.Entry.Tags

/-!
# What the entry page loads

The page is read tag by tag (`tagsOf`). Everything in it has a known way through the reader: the
fixed parts, the elements of the modules (`reads_styleElement`, `reads_scriptElement`) and the script
with the manifest, which no closing tag ends (`reads_script`) before that of the page
(`reads_scriptEnd`). So the tags of the page are known (`tagsOf_pageText`), and the references in them
(`pageText_loads`).

Names are written into the page as they are. A quote in a name ends the attribute that it stands in,
and what looks like a character reference is read as one. Nor is a manifest kept from looking like a
comment with a script in it. `pageText_loads` excludes these; all other marks are read back.
-/

namespace AppletBundle.Entry

open ScriptMode

/-! ### Scripts -/

variable {mode : ScriptMode} {recent s : List Char} {c : Char}

theorem infix_of_endsWithTag (h : endsWithTag ['<', '/'] (c :: recent) = true) :
    ['<', '/'] <:+: recent.reverse := by
  have hopening : endsWith ['<', '/'] (recent.drop 6) = true := (Bool.and_eq_true_iff.1 h).2
  have hends : ['/', '<'] <+: recent.drop 6 := List.isPrefixOf_iff_prefix.1 hopening
  have hinfix : ['/', '<'] <:+: recent := hends.isInfix.trans (List.drop_suffix 6 recent).isInfix
  simpa using List.reverse_infix.2 hinfix

theorem reads_script_step (h : mode.ends (c :: recent) = false) :
    Reads (.script mode recent) [c] [] (.script (mode.next (c :: recent)) (c :: recent)) := by
  refine Reads.of_read ?_
  simp [Reader.read, Reader.step, Position.tag?, Position.next, h]

/-- **A text without closing tags stays in a script.** -/
theorem reads_script (mode : ScriptMode) (h : ¬ ['<', '/'] <:+: recent.reverse ++ s) :
    Reads (.script mode recent) s [] (.script (mode.after recent s) (s.reverse ++ recent)) := by
  induction s generalizing mode recent with
  | nil => exact Reads.nil _
  | cons c s ih =>
    have hends : mode.ends (c :: recent) = false := by
      by_contra hends
      rw [Bool.not_eq_false, ends, Bool.and_eq_true] at hends
      exact h ((infix_of_endsWithTag hends.2).trans (List.prefix_append _ _).isInfix)
    have htext : ¬ ['<', '/'] <:+: (c :: recent).reverse ++ s := by simpa using h
    have hrest := ih (mode.next (c :: recent)) htext
    simpa [ScriptMode.after] using (reads_script_step hends).append hrest

/-- Nothing changes in a script where no tag ends. -/
theorem reads_script_same (h : ∀ opening, endsWithTag opening (c :: recent) = false) (hc : c ≠ '-')
    (hc' : c ≠ '>') : Reads (.script mode recent) [c] [] (.script mode (c :: recent)) := by
  have hends : mode.ends (c :: recent) = false := by rw [ends, h, Bool.and_false]
  have hnext : mode.next (c :: recent) = mode := by
    cases mode <;> simp [ScriptMode.next, h, endsWith, Ne.symm hc, Ne.symm hc']
  have hstep := reads_script_step hends
  rwa [hnext] at hstep

theorem reads_script_quiet (h : ∀ c ∈ s, endsName c = false ∧ c ≠ '-') :
    Reads (.script mode recent) s [] (.script mode (s.reverse ++ recent)) := by
  induction s generalizing recent with
  | nil => exact Reads.nil _
  | cons c s ih =>
    obtain ⟨⟨hname, hdash⟩, hs⟩ := List.forall_mem_cons.1 h
    have hbracket : c ≠ '>' := by
      rintro rfl
      cases hname
    have hfirst : Reads (.script mode recent) [c] [] (.script mode (c :: recent)) :=
      reads_script_same (fun opening ↦ by rw [endsWithTag, hname]; rfl) hdash hbracket
    simpa using hfirst.append (ih hs)

/-- No name of a tag ends right behind the opening bracket. -/
theorem endsWithTag_slash (recent opening : List Char) :
    endsWithTag opening ('/' :: '<' :: recent) = false := by
  have hname : (('<' :: recent).take 6).reverse.map Char.toLower ≠ scriptName := by
    intro h
    have hlast := congrArg List.getLast? h
    simp [scriptName] at hlast
  rw [endsWithTag, beq_false_of_ne hname, Bool.and_false, Bool.false_and]

/-- The closing tag of a script. -/
def scriptEnd : List Char :=
  ['<'] ++ ['/'] ++ scriptName ++ ['>']

/-- **The closing tag of a script ends it**, unless it ends another script in a comment. -/
theorem reads_scriptEnd (hmode : mode ≠ nested) :
    Reads (.script mode recent) scriptEnd [] .text := by
  have hopened : Reads (.script mode recent) ['<'] [] (.script mode ('<' :: recent)) :=
    reads_script_quiet (by simp [endsName, isSpace])
  have hslash : Reads (.script mode ('<' :: recent)) ['/'] []
      (.script mode ('/' :: '<' :: recent)) :=
    reads_script_same (endsWithTag_slash recent) (by decide) (by decide)
  have hname : Reads (.script mode ('/' :: '<' :: recent)) scriptName []
      (.script mode (scriptName.reverse ++ '/' :: '<' :: recent)) :=
    reads_script_quiet (by simp [scriptName, endsName, isSpace])
  have hend : Reads (.script mode (scriptName.reverse ++ '/' :: '<' :: recent)) ['>'] []
      .text := by
    have hends : mode.ends ('>' :: (scriptName.reverse ++ '/' :: '<' :: recent)) = true := by
      simp [ends, hmode, scriptName, endsWithTag, endsName, endsWith]
    refine Reads.of_read ?_
    simpa [Reader.read, Reader.step, Position.tag?, Position.next] using hends
  exact ((hopened.append hslash).append hname).append hend

/-! ### Fixed parts -/

/-- The page up to the style sheets. -/
def pageHead : String :=
  "<!DOCTYPE html>\n<html>\n  <head>\n    <meta charset=\"utf-8\" />\n" ++
  "    <meta name=\"viewport\" content=\"width=device-width, initial-scale=1\" />\n"

/-- The page between the style sheets and the text of the first script. -/
def pageBody : String :=
  "  </head>\n  <body>\n    <div id=\"root\"></div>\n    <script>"

/-- The page behind the scripts. -/
def pageEnd : String :=
  "  </body>\n</html>\n"

/-- The tags in front of the style sheets. -/
def headTags : List Tag :=
  [⟨false, "html".toList, []⟩, ⟨false, "head".toList, []⟩,
    ⟨false, "meta".toList, [("charset".toList, "utf-8".toList)]⟩,
    ⟨false, "meta".toList, [("name".toList, "viewport".toList),
      ("content".toList, "width=device-width, initial-scale=1".toList)]⟩]

/-- The tags between the style sheets and the text of the first script. -/
def bodyTags : List Tag :=
  [⟨true, "head".toList, []⟩, ⟨false, "body".toList, []⟩,
    ⟨false, "div".toList, [("id".toList, "root".toList)]⟩, ⟨true, "div".toList, []⟩,
    ⟨false, scriptName, []⟩]

/-- The tags behind the scripts. -/
def endTags : List Tag :=
  [⟨true, "body".toList, []⟩, ⟨true, "html".toList, []⟩]

/-- The page in front of the reference to a style sheet. -/
def styleOpening : String :=
  "    <link rel=\"stylesheet\" href=\""

/-- The page in front of the reference to a script. -/
def scriptOpening : String :=
  "    <script src=\""

/-- **The fixed parts of the page are read.** -/
theorem read_fixed :
    Reader.read ⟨.text, []⟩ pageHead.toList = ⟨.text, headTags⟩ ∧
      Reader.read ⟨.text, []⟩ pageBody.toList = ⟨.script .plain [], bodyTags⟩ ∧
      Reader.read ⟨.text, []⟩ pageEnd.toList = ⟨.text, endTags⟩ ∧
      Reader.read ⟨.text, []⟩ styleOpening.toList =
        ⟨.value ⟨false, "link".toList, [("rel".toList, "stylesheet".toList)]⟩ "href".toList
          (some '"') [], []⟩ ∧
      Reader.read ⟨.text, []⟩ scriptOpening.toList =
        ⟨.value ⟨false, scriptName, []⟩ "src".toList (some '"') [], []⟩ := by
  unfold pageHead headTags pageBody bodyTags pageEnd endTags styleOpening scriptOpening
  simp only [String.toList_append, String.reduceToList, List.cons_append, List.nil_append]
  decide +kernel

theorem reads_pageHead : Reads .text pageHead.toList headTags .text :=
  .of_read read_fixed.1

theorem reads_pageBody : Reads .text pageBody.toList bodyTags (.script .plain []) :=
  .of_read read_fixed.2.1

theorem reads_pageEnd : Reads .text pageEnd.toList endTags .text :=
  .of_read read_fixed.2.2.1

/-! ### Elements -/

/-- **A value without quotes is read as it is.** -/
theorem reads_value {t : Tag} {name v : List Char} (hs : '"' ∉ s) :
    Reads (.value t name (some '"') v) s [] (.value t name (some '"') (v ++ s)) := by
  induction s generalizing v with
  | nil => simpa using Reads.nil _
  | cons c s ih =>
    rw [List.mem_cons, not_or] at hs
    have hfirst : Reads (.value t name (some '"') v) [c] []
        (.value t name (some '"') (v ++ [c])) := by
      refine Reads.of_read ?_
      simp [Reader.read, Reader.step, Position.tag?, Position.next, Ne.symm hs.1]
    simpa using hfirst.append (ih hs.2)

theorem reads_quoted {t : Tag} {name : List Char} (hs : '"' ∉ s) :
    Reads (.value t name (some '"') []) s [] (.value t name (some '"') s) :=
  reads_value hs

/-- The tag that loads a style sheet. -/
def styleTag (p : Path) : Tag :=
  ⟨false, "link".toList,
    [("rel".toList, "stylesheet".toList), ("href".toList, (reference p).toList)]⟩

/-- The tag that loads a script. -/
def scriptTag (p : Path) : Tag :=
  ⟨false, scriptName, [("src".toList, (reference p).toList)]⟩

theorem reads_styleElement {p : Path} (h : '"' ∉ (reference p).toList) :
    Reads .text (styleElement p).toList [styleTag p] .text := by
  have hend : ∀ v, Reads (.value ⟨false, "link".toList, [("rel".toList, "stylesheet".toList)]⟩
      "href".toList (some '"') v) "\" />\n".toList
      [⟨false, "link".toList, [("rel".toList, "stylesheet".toList), ("href".toList, v)]⟩] .text := by
    intro v
    refine Reads.of_read ?_
    simp [Reader.read, Reader.step, Position.tag?, Position.next, Position.behind, Tag.add, isSpace,
      scriptName]
  have htext : (styleElement p).toList = styleOpening.toList ++ (reference p).toList ++
      "\" />\n".toList := by
    unfold styleElement styleOpening
    simp only [String.toList_append]
  rw [htext]
  exact ((Reads.of_read read_fixed.2.2.2.1).append (reads_quoted h)).append (hend _)

theorem reads_scriptElement {p : Path} (h : '"' ∉ (reference p).toList) :
    Reads .text (scriptElement p).toList [scriptTag p] .text := by
  have hend : ∀ v, Reads (.value ⟨false, scriptName, []⟩ "src".toList (some '"') v)
      "\">".toList [⟨false, scriptName, [("src".toList, v)]⟩] (.script .plain []) := by
    intro v
    refine Reads.of_read ?_
    simp [Reader.read, Reader.step, Position.tag?, Position.next, Position.behind, Tag.add]
  have hline : Reads .text ['\n'] [] .text := Reads.of_read rfl
  have hlast : "\"></script>\n".toList = "\">".toList ++ (scriptEnd ++ ['\n']) := by
    decide
  have htext : (scriptElement p).toList = scriptOpening.toList ++ (reference p).toList ++
      "\"></script>\n".toList := by
    unfold scriptElement scriptOpening
    simp only [String.toList_append]
  rw [htext, hlast]
  exact ((Reads.of_read read_fixed.2.2.2.2).append (reads_quoted h)).append
    ((hend _).append ((reads_scriptEnd (by decide)).append hline))

theorem Reads.flatMap {α : Type} {p : Position} {f : α → List Char} {tag : α → Tag} {as : List α}
    (h : ∀ a ∈ as, Reads p (f a) [tag a] p) : Reads p (as.flatMap f) (as.map tag) p := by
  induction as with
  | nil => exact Reads.nil p
  | cons a as ih =>
    obtain ⟨ha, has⟩ := List.forall_mem_cons.1 h
    exact ha.append (ih has)

/-! ### The page -/

/-- The text of the script that holds the manifest. -/
def scriptText (manifest : String) : List Char :=
  "\n      window.manifest = ".toList ++ guardClosings false manifest.toList ++ ";\n    ".toList

/-- Guarding what is around a text changes nothing, if there is no slash in it. -/
theorem guardClosings_around (front s back : List Char) (hfront : '/' ∉ front) (hback : '/' ∉ back)
    (hend : endsOpen false front = false) :
    guardClosings false (front ++ (s ++ back)) = front ++ guardClosings false s ++ back := by
  rw [guardClosings_append, guardClosings_append, guardClosings_of_not_mem hfront, hend,
    guardClosings_of_not_mem hback, List.append_assoc]

theorem not_infix_scriptText (manifest : String) : ¬ ['<', '/'] <:+: scriptText manifest := by
  have hguarded := guardClosings_around "\n      window.manifest = ".toList manifest.toList
    ";\n    ".toList (by decide) (by decide) (by decide)
  unfold scriptText
  rw [← hguarded]
  exact not_infix_guardClosings false _

theorem toList_join_map {α : Type} (f : α → String) (as : List α) :
    (String.join (as.map f)).toList = as.flatMap fun a ↦ (f a).toList := by
  induction as with
  | nil => rfl
  | cons a as ih =>
    rw [List.map_cons, String.join_cons, String.toList_append, ih, List.flatMap_cons]

theorem toList_pageText (modules : List Path) (manifest : String) :
    (pageText modules manifest).toList = pageHead.toList ++
      ((modules.filter fun p ↦ moduleKind? p == some .style).flatMap fun p ↦
        (styleElement p).toList) ++
      pageBody.toList ++ scriptText manifest ++ scriptEnd ++ ['\n'] ++
      ((modules.filter fun p ↦ !(moduleKind? p == some .style)).flatMap fun p ↦
        (scriptElement p).toList) ++
      pageEnd.toList := by
  have hbody : "  </head>\n  <body>\n    <div id=\"root\"></div>\n    <script>\n" =
      pageBody ++ "\n" := by simp [pageBody]
  have hclosing : "    </script>\n" = "    " ++ "</script>" ++ "\n" := by simp
  have hfront : "\n      window.manifest = " = "\n" ++ "      " ++ "window.manifest = " := by simp
  have hback : ";\n    " = ";\n" ++ "    " := by simp
  have hline : ['\n'] = "\n".toList := by simp
  have hend : scriptEnd = "</script>".toList := by simp [scriptEnd, scriptName]
  rw [pageText_eq, hend]
  unfold pageOpening pageClosing pageHead pageEnd scriptText
  simp only [hbody, hclosing, hfront, hback, hline, String.toList_append, toList_join_map,
    String.toList_ofList, List.append_assoc]

theorem styleTag_href (refs : References) {p : Path}
    (h : decode refs (reference p).toList = (reference p).toList) :
    (styleTag p).attribute? refs "href" = some (reference p) := by
  have hlookup : (styleTag p).attributes.lookup "href".toList = some (reference p).toList := by
    simp [styleTag, List.lookup_cons]
  rw [Tag.attribute?, hlookup, Option.map_some, h, String.ofList_toList]

theorem scriptTag_src (refs : References) {p : Path}
    (h : decode refs (reference p).toList = (reference p).toList) :
    (scriptTag p).attribute? refs "src" = some (reference p) := by
  have hlookup : (scriptTag p).attributes.lookup "src".toList = some (reference p).toList := by
    simp [scriptTag]
  rw [Tag.attribute?, hlookup, Option.map_some, h, String.ofList_toList]

/-- **The tags of the entry page**: those that load modules stand between fixed ones. -/
theorem tagsOf_pageText {modules : List Path} {manifest : String}
    (hquote : ∀ p ∈ modules, '"' ∉ (reference p).toList)
    (hscript : ScriptMode.plain.after [] (scriptText manifest) ≠ .nested) :
    tagsOf (pageText modules manifest) =
      headTags ++ (modules.filter fun p ↦ moduleKind? p == some .style).map styleTag ++ bodyTags ++
        (modules.filter fun p ↦ !(moduleKind? p == some .style)).map scriptTag ++ endTags := by
  have hstyles : ∀ p ∈ modules.filter fun p ↦ moduleKind? p == some .style,
      Reads .text (styleElement p).toList [styleTag p] .text :=
    fun p hp ↦ reads_styleElement (hquote p (List.mem_of_mem_filter hp))
  have hscripts : ∀ p ∈ modules.filter fun p ↦ !(moduleKind? p == some .style),
      Reads .text (scriptElement p).toList [scriptTag p] .text :=
    fun p hp ↦ reads_scriptElement (hquote p (List.mem_of_mem_filter hp))
  have htext : Reads (.script .plain []) (scriptText manifest) [] _ :=
    reads_script .plain (not_infix_scriptText manifest)
  have hline : Reads .text ['\n'] [] .text := Reads.of_read rfl
  have hopening := (reads_pageHead.append (Reads.flatMap hstyles)).append reads_pageBody
  have hclosing := ((hopening.append htext).append (reads_scriptEnd hscript)).append hline
  have hpage := (hclosing.append (Reads.flatMap hscripts)).append reads_pageEnd
  rw [← toList_pageText] at hpage
  rw [tagsOf, hpage [], List.nil_append, List.append_nil, List.append_nil, List.append_nil]

theorem elements_append (name : String) (ts us : List Tag) :
    elements name (ts ++ us) = elements name ts ++ elements name us :=
  List.filter_append ts us

theorem elements_map_of_name {name : String} {f : Path → Tag}
    (h : ∀ p, (f p).closing = false ∧ (f p).name = name.toList) (ps : List Path) :
    elements name (ps.map f) = ps.map f := by
  refine List.filter_eq_self.2 fun t ht ↦ ?_
  obtain ⟨p, -, rfl⟩ := List.mem_map.1 ht
  simp [h p]

theorem elements_map_of_ne {name : String} {f : Path → Tag} (h : ∀ p, (f p).name ≠ name.toList)
    (ps : List Path) : elements name (ps.map f) = [] := by
  refine List.filter_eq_nil_iff.2 fun t ht ↦ ?_
  obtain ⟨p, -, rfl⟩ := List.mem_map.1 ht
  simp [h p]

theorem moduleKind?_beq_style (p : Path) :
    (moduleKind? p == some .style) = decide (p.extension? = some "css") := by
  unfold moduleKind?
  split
  · rename_i hext
    simp [hext]
  · rename_i hext
    simp [hext]
  · rename_i hext
    simpa using hext

/-- **The entry page loads the given modules**: the style sheets among them by links and all others
by scripts, in order, each by its components. It has no other links, and its only other script refers
to nothing. -/
theorem pageText_loads (refs : References) (modules : List Path) (c : BuildContext)
    (hquote : ∀ p ∈ modules, '"' ∉ (reference p).toList)
    (hrefs : ∀ p ∈ modules, decode refs (reference p).toList = (reference p).toList)
    (hscript : ScriptMode.plain.after [] (scriptText c.manifestText) ≠ .nested) :
    (elements "link" (tagsOf (pageText modules c.manifestText))).map (·.attribute? refs "href") =
      (modules.filter (·.extension? = some "css")).map (fun p ↦
        some ("./" ++ "/".intercalate (p.components.map Path.Component.text))) ∧
    (elements "script" (tagsOf (pageText modules c.manifestText))).filterMap
        (·.attribute? refs "src") =
      (modules.filter (·.extension? ≠ some "css")).map (fun p ↦
        "./" ++ "/".intercalate (p.components.map Path.Component.text)) := by
  have hlinkName : ∀ p, (styleTag p).closing = false ∧ (styleTag p).name = "link".toList :=
    fun p ↦ ⟨rfl, rfl⟩
  have hscriptName : ∀ p, (scriptTag p).closing = false ∧ (scriptTag p).name = "script".toList :=
    fun p ↦ ⟨rfl, rfl⟩
  have hnoLink : ∀ p, (scriptTag p).name ≠ "link".toList := fun p ↦ by simp [scriptTag, scriptName]
  have hnoScript : ∀ p, (styleTag p).name ≠ "script".toList := fun p ↦ by simp [styleTag]
  have hfixedLinks : elements "link" headTags = [] ∧ elements "link" bodyTags = [] ∧
      elements "link" endTags = [] := by decide +kernel
  have hfixedScripts : elements "script" headTags = [] ∧
      elements "script" bodyTags = [⟨false, scriptName, []⟩] ∧
      elements "script" endTags = [] := by decide +kernel
  have hstyles : modules.filter (fun p ↦ moduleKind? p == some .style) =
      modules.filter (·.extension? = some "css") :=
    List.filter_congr fun p _ ↦ moduleKind?_beq_style p
  have hscripts : modules.filter (fun p ↦ !(moduleKind? p == some .style)) =
      modules.filter (·.extension? ≠ some "css") :=
    List.filter_congr fun p _ ↦ by rw [moduleKind?_beq_style, decide_not]
  have hhref : ∀ p ∈ modules, (styleTag p).attribute? refs "href" = some (reference p) :=
    fun p hp ↦ styleTag_href refs (hrefs p hp)
  have hsrc : ∀ p ∈ modules, (scriptTag p).attribute? refs "src" = some (reference p) :=
    fun p hp ↦ scriptTag_src refs (hrefs p hp)
  rw [tagsOf_pageText hquote hscript, hstyles, hscripts]
  simp only [elements_append, elements_map_of_name hlinkName, elements_map_of_name hscriptName,
    elements_map_of_ne hnoLink, elements_map_of_ne hnoScript, hfixedLinks, hfixedScripts]
  constructor
  · simp only [List.nil_append, List.append_nil, List.map_map]
    exact List.map_congr_left fun p hp ↦ hhref p (List.mem_of_mem_filter hp)
  · have hopen : (⟨false, scriptName, []⟩ : Tag).attribute? refs "src" = none := rfl
    simp only [List.nil_append, List.append_nil, List.filterMap_append, List.filterMap_cons, hopen,
      List.filterMap_nil, List.filterMap_map]
    rw [← List.filterMap_eq_map]
    exact List.filterMap_congr fun p hp ↦ hsrc p (List.mem_of_mem_filter hp)

/-- Marks of elements and of comments are harmless in routes and names. -/
theorem pageText_loads_marks :
    let refs : References := fun s ↦ if "amp;".toList.isPrefixOf s then some (['&'], 4) else none
    let modules : List Path := [⟨"runtime/it's <b>.js"⟩, ⟨"runtime/./R&D.css"⟩, ⟨"app.js"⟩]
    let c : BuildContext := ⟨[⟨"app.js"⟩], OrderedMap.empty.insert "</script><!--"
      ⟨"</script><!--", "p", none, some ⟨"p.css"⟩, none⟩⟩
    (elements "link" (tagsOf (pageText modules c.manifestText))).map (·.attribute? refs "href") =
        [some "./runtime/R&D.css"] ∧
      (elements "script" (tagsOf (pageText modules c.manifestText))).filterMap
        (·.attribute? refs "src") = ["./runtime/it's <b>.js", "./app.js"] := by
  intro refs modules c
  have hquote : ∀ p ∈ modules, '"' ∉ (reference p).toList := by decide +kernel
  have hrefs : ∀ p ∈ modules, decode refs (reference p).toList = (reference p).toList := by
    have hplain : ∀ p ∈ modules, ∀ t ∈ (reference p).toList.tails, t.head? = some '&' →
        refs t.tail = none := by decide +kernel
    exact fun p hp ↦ decode_of_plain (hplain p hp)
  have hscript : ScriptMode.plain.after [] (scriptText c.manifestText) ≠ .nested := by
    have hmanifest : c.manifestText.toList = Json.printAt 0 c.manifestValue := String.toList_ofList
    unfold scriptText
    rw [hmanifest]
    decide +kernel
  have hstyles : (modules.filter (·.extension? = some "css")).map (fun p ↦
      some ("./" ++ "/".intercalate (p.components.map Path.Component.text))) =
      [some "./runtime/R&D.css"] := by decide +kernel
  have hscripts : (modules.filter (·.extension? ≠ some "css")).map (fun p ↦
      "./" ++ "/".intercalate (p.components.map Path.Component.text)) =
      ["./runtime/it's <b>.js", "./app.js"] := by decide +kernel
  have hloads := pageText_loads refs modules c hquote hrefs hscript
  rwa [hstyles, hscripts] at hloads

end AppletBundle.Entry
