import BlockPuzzle.Level.Catalog.Entry

/-!
# World 1: levels 1 to 25
-/

namespace BlockPuzzle.Catalog

def grasslands : List Entry := [
  { id := 1, world := 1, title := "First Steps"
    rows := ["#####", "#S.G#", "#####"]
    start := ⟨⟨1, 1⟩, .right⟩, palette := rightOnly, optimalSteps := 2
    hint := "Tap the → arrow to move right!" },
  { id := 2, world := 1, title := "A Bit Further"
    rows := ["######", "#S..G#", "######"]
    start := ⟨⟨1, 1⟩, .right⟩, palette := rightOnly, optimalSteps := 3
    hint := "Keep going right!" },
  { id := 3, world := 1, title := "Collect the Star"
    rows := ["#####", "#S.*#", "###G#", "#####"]
    start := ⟨⟨1, 1⟩, .right⟩, palette := rightDown, optimalSteps := 3
    hint := "Go right to the star, then down to home!" },
  { id := 4, world := 1, title := "Going Down"
    rows := ["####", "#S##", "#.##", "#G##", "####"]
    start := ⟨⟨1, 1⟩, .down⟩, palette := [.move .down], optimalSteps := 2
    hint := "Tap ↓ to go down!" },
  { id := 5, world := 1, title := "L-Shape"
    rows := ["#####", "#S..#", "###.#", "###G#", "#####"]
    start := ⟨⟨1, 1⟩, .right⟩, palette := rightDown, optimalSteps := 4
    hint := "Go right, then down!" },
  { id := 6, world := 1, title := "Diamond Path"
    rows := ["#####", "#S$.#", "###.#", "###G#", "#####"]
    start := ⟨⟨1, 1⟩, .right⟩, palette := rightDown, optimalSteps := 4
    hint := "Collect the diamond on the way!" },
  { id := 7, world := 1, title := "Zigzag"
    rows := ["#####", "#S###", "#..##", "##.##", "##G##", "#####"]
    start := ⟨⟨1, 1⟩, .down⟩, palette := rightDown, optimalSteps := 5
    hint := "Zigzag your way down!" },
  { id := 8, world := 1, title := "Star Path"
    rows := ["######", "#S*.*#", "####G#", "######"]
    start := ⟨⟨1, 1⟩, .right⟩, palette := rightDown, optimalSteps := 5
    hint := "Collect all stars!" },
  { id := 9, world := 1, title := "Two Turns"
    rows := ["#####", "#S.##", "##.##", "##..#", "###G#", "#####"]
    start := ⟨⟨1, 1⟩, .right⟩, palette := rightDown, optimalSteps := 5
    hint := "Use → and ↓ arrows!" },
  { id := 10, world := 1, title := "Diamond & Stars"
    rows := ["######", "#S*$*#", "####G#", "######"]
    start := ⟨⟨1, 1⟩, .right⟩, palette := rightDown, optimalSteps := 5
    hint := "Collect everything!" },
  { id := 11, world := 1, title := "Going Up"
    rows := ["#####", "###G#", "###.#", "#S..#", "#####"]
    start := ⟨⟨3, 1⟩, .right⟩, palette := [.move .right, .move .up], optimalSteps := 4
    hint := "Try the ↑ arrow!" },
  { id := 12, world := 1, title := "Going Left"
    rows := ["#####", "#G.S#", "#####"]
    start := ⟨⟨1, 3⟩, .left⟩, palette := [.move .left], optimalSteps := 2
    hint := "Try the ← arrow!" },
  { id := 13, world := 1, title := "All Directions"
    rows := ["#####", "#.G.#", "#.#.#", "#S.$#", "#####"]
    start := ⟨⟨3, 1⟩, .right⟩, palette := allMoves, optimalSteps := 4
    hint := "Use all four arrows!" },
  { id := 14, world := 1, title := "U-Turn"
    rows := ["#####", "#.#S#", "#.#.#", "#G$.#", "#####"]
    start := ⟨⟨1, 3⟩, .down⟩, palette := allMoves, optimalSteps := 6
    hint := "Go around the wall!" },
  { id := 15, world := 1, title := "Diamond Hunt"
    rows := ["######", "#S.$.#", "####.#", "##$..#", "##G###", "######"]
    start := ⟨⟨1, 1⟩, .right⟩, palette := allMoves, optimalSteps := 7
    hint := "Find all diamonds!" },
  { id := 16, world := 1, title := "Corner Stars"
    rows := ["#####", "#S.*#", "###.#", "#*$G#", "#####"]
    start := ⟨⟨1, 1⟩, .right⟩, palette := allMoves, optimalSteps := 6
    hint := "Stars and diamonds at corners!" },
  { id := 17, world := 1, title := "Meadow Walk"
    rows := ["#######", "#S....#", "#####.#", "#G$.$.#", "#######"]
    start := ⟨⟨1, 1⟩, .right⟩, palette := allMoves, optimalSteps := 10
    hint := "A nice walk through the meadow!" },
  { id := 18, world := 1, title := "Three Gems"
    rows := ["#####", "#S$##", "##.##", "##$.#", "###$#", "###G#", "#####"]
    start := ⟨⟨1, 1⟩, .right⟩, palette := allMoves, optimalSteps := 7
    hint := "Get all three gems!" },
  { id := 19, world := 1, title := "Crossroads"
    rows := ["######", "##.###", "#.S.##", "##.###", "##G###", "######"]
    start := ⟨⟨2, 2⟩, .down⟩, palette := allMoves, optimalSteps := 2
    hint := "Which way will you go?" },
  { id := 20, world := 1, title := "Diamond Box"
    rows := ["#######", "###S###", "##...##", "#.$*$.#", "##...##", "###G###", "#######"]
    start := ⟨⟨1, 3⟩, .down⟩, palette := allMoves, optimalSteps := 4
    hint := "Navigate the diamond box!" },
  { id := 21, world := 1, title := "Gem Path"
    rows := ["######", "#S$.$#", "####.#", "####G#", "######"]
    start := ⟨⟨1, 1⟩, .right⟩, palette := allMoves, optimalSteps := 5
    hint := "Collect the gems!" },
  { id := 22, world := 1, title := "Winding Road"
    rows := ["######", "#S.###", "##.$##", "###..#", "####G#", "######"]
    start := ⟨⟨1, 1⟩, .right⟩, palette := allMoves, optimalSteps := 6
    hint := "Wind your way down!" },
  { id := 23, world := 1, title := "Star & Diamond"
    rows := ["#####", "#S*$#", "###.#", "##G.#", "#####"]
    start := ⟨⟨1, 1⟩, .right⟩, palette := allMoves, optimalSteps := 5
    hint := "Stars AND diamonds!" },
  { id := 24, world := 1, title := "Long Zigzag"
    rows := ["#######", "#S..###", "###.###", "##$.###", "##.####", "##.$G##", "#######"]
    start := ⟨⟨1, 1⟩, .right⟩, palette := allMoves, optimalSteps := 9
    hint := "The biggest zigzag yet!" },
  { id := 25, world := 1, title := "Grasslands Boss"
    rows := ["#######", "#S*.$$#", "###.###", "##*.$##", "###.###", "###G###", "#######"]
    start := ⟨⟨1, 1⟩, .right⟩, palette := allMoves, optimalSteps := 8
    hint := "Final Grasslands challenge!" }]

end BlockPuzzle.Catalog
