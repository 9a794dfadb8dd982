import MidiSynth.Hardware.I2STheorems
import MidiSynth.Hardware.PitchTheorems
import MidiSynth.Hardware.ScaleTheorems
import MidiSynth.Hardware.SquareTheorems
import MidiSynth.Hardware.TriangleHistoryTheorems
import MidiSynth.Hardware.VibratoTheorems
import MidiSynth.Software.DecayRateTheorems
import MidiSynth.Software.NoteOffTheorems
import MidiSynth.Software.UninitTheorems
import MidiSynth.System.SilenceTheorems
import MidiSynth.System.TuneTheorems
import MidiSynth.Usb.EnumerationTheorems
import MidiSynth.Usb.SendTheorems
