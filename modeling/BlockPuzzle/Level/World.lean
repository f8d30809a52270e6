import BlockPuzzle.Program.Block

/-!
# Worlds

Levels are numbered from 1 on, and every world holds 25 of them.

## Main definitions

* `World.ofLevel`: the number of the world of a level.
* `World`: a world of mazes, with the names of its levels.
* `World.all`: the worlds of mazes.
-/

namespace BlockPuzzle

/-- A world whose levels are mazes. -/
structure World where
  id : Nat
  firstLevel : Nat
  name : String
  palette : List Kind
  titles : List String
  deriving DecidableEq, Repr

namespace World

/-- The number of levels in a world. -/
def size : Nat := 25

/-- The number of worlds, drawn ones and mazes. -/
def number : Nat := 8

/-- The number of levels in all worlds. -/
def totalLevels : Nat := 200

/-- The number of the world that a level belongs to. -/
def ofLevel (level : Nat) : Nat := (level - 1) / size + 1

def lastLevel (w : World) : Nat := w.firstLevel + size - 1

def contains (w : World) (level : Nat) : Bool := w.firstLevel ≤ level && level ≤ w.lastLevel

def title (w : World) (index : Nat) : String := w.titles.getD index "Untitled"

def moves : List Kind := Direction.palette.map .move

def branches : List Kind :=
  moves ++ [.branch .wallAhead, .branch .pathAhead, .otherwise, .endBranch]

def allBlocks : List Kind := branches ++ [.branch .onStar]

def forest : World where
  id := 4
  firstLevel := 76
  name := "Forest"
  palette := moves
  titles := [
    "Tall Trees", "Mossy Path", "Woodland Trail", "Fern Valley", "Pine Ridge", "Oak Bridge",
    "Ivy Walk", "Mushroom Glen", "Fox Den", "Bear Trail", "Bird Song", "Acorn Hunt", "Leaf Fall",
    "Root Bridge", "Forest Lake", "Willow Way", "Cedar Pass", "Bark Path", "Deer Run",
    "Squirrel Chase", "Owl Eyes", "Honey Tree", "Dark Woods", "Ancient Oak", "Forest Boss"]

def mountains : World where
  id := 5
  firstLevel := 101
  name := "Mountains"
  palette := branches
  titles := [
    "Base Camp", "Rocky Start", "Boulder Path", "Cliff Edge", "Peak View", "Snow Drift",
    "Eagle Nest", "Crystal Stream", "Cave Mouth", "Ridge Walk", "Summit Push", "Cloud Walk",
    "Goat Trail", "Wind Pass", "Ice Bridge", "Alpine Meadow", "Crevasse Jump", "Echo Point",
    "Mountain Lake", "Storm Peak", "Frost Bite", "Granite Stairs", "Thin Air", "Final Ascent",
    "Mountain Boss"]

def space : World where
  id := 6
  firstLevel := 126
  name := "Space"
  palette := branches
  titles := [
    "Launch Pad", "Orbit Entry", "Star Dust", "Asteroid Belt", "Moon Walk", "Saturn Rings",
    "Nebula Drift", "Comet Tail", "Galaxy Spin", "Black Hole Edge", "Space Walk", "Mars Landing",
    "Jupiter Fly", "Venus Glow", "Alien Signal", "Wormhole", "Light Speed", "Gravity Pull",
    "Solar Wind", "Star Gate", "Deep Space", "Meteor Shower", "Constellation", "Universe End",
    "Space Boss"]

def volcano : World where
  id := 7
  firstLevel := 151
  name := "Volcano"
  palette := allBlocks
  titles := [
    "Magma Flow", "Ash Rain", "Hot Springs", "Lava Bridge", "Smoke Signal", "Eruption Path",
    "Crystal Form", "Obsidian Wall", "Ember Trail", "Fire Walk", "Sulphur Lake", "Vent Climb",
    "Magma Chamber", "Igneous Path", "Basalt Bridge", "Pyroclast", "Thermal Rise", "Caldera Edge",
    "Inferno Gate", "Lava Tube", "Cinder Cone", "Pumice Trail", "Geode Cave", "Core Access",
    "Volcano Boss"]

def crystalCave : World where
  id := 8
  firstLevel := 176
  name := "Crystal Cave"
  palette := allBlocks
  titles := [
    "Crystal Entry", "Amethyst Path", "Quartz Tunnel", "Sapphire Room", "Ruby Chamber",
    "Emerald Hall", "Diamond Corridor", "Topaz Bridge", "Opal Cavern", "Garnet Pass", "Jade Garden",
    "Citrine Lake", "Pearl Drop", "Tourmaline Twist", "Zircon Maze", "Moonstone Mirror",
    "Onyx Depths", "Aquamarine Pool", "Tanzanite Trail", "Alexandrite Shift", "Bismuth Stairs",
    "Fluorite Glow", "Malachite Maze", "Platinum Path", "Crystal Boss"]

/-- The worlds of mazes, in the order of their levels. -/
def all : List World := [forest, mountains, space, volcano, crystalCave]

/-- The world of mazes that a level belongs to. -/
def find? (level : Nat) : Option World := all.find? fun w => w.contains level

end World

end BlockPuzzle
